import Mathlib.Algebra.Order.Group.Unbundled.Int
import RelayHub.Lib.Bytes

/-! # RelayHub authentication — request signatures

A request is signed with an HMAC over its timestamp, method, target and the hash of its body, joined by line
feeds. `Verify` compares the timestamp with the clock in 64-bit arithmetic. Any timestamp is accepted as a number,
and its difference to the clock wraps around only if the clock itself is more than 2^62 seconds from 1970. -/

namespace RelayHub.Auth

open List Bytes

/-! ## Signing -/

/-- A SHA-256 sum. -/
@[ext] structure Digest where
  bytes : List UInt8
  size : bytes.length = 32

/-- The hash functions. -/
structure Hashes where
  sha256 : List UInt8 → Digest
  hmac : List UInt8 → List UInt8 → Digest

/-- What a signature is for. -/
structure Request where
  timestamp : List UInt8
  method : List UInt8
  target : List UInt8
  body : List UInt8
  deriving DecidableEq

/-- The text that is signed. -/
def Request.canonical (H : Hashes) (r : Request) : List UInt8 :=
  r.timestamp ++ 10 :: (r.method ++ 10 :: (r.target ++ 10 :: encodeHex (H.sha256 r.body).bytes))

def sign (H : Hashes) (secret : List UInt8) (r : Request) : List UInt8 :=
  encodeHex (H.hmac secret (r.canonical H)).bytes

/-! ## Verifying -/

inductive AuthenticationError where
  | malformed
  | timestampExpired
  | signatureInvalid
  | computeSignature
  deriving DecidableEq

def lowerByte (c : UInt8) : UInt8 := if 65 ≤ c.toNat ∧ c.toNat ≤ 90 then UInt8.ofNat (c.toNat + 32) else c

/-- The loop of `stringLower`, which sets the first byte of each rune; `skip` bytes of the last one are left. -/
def stringLowerFrom : Nat → List UInt8 → List UInt8
  | _, [] => []
  | 0, c :: rest => lowerByte c :: stringLowerFrom (runeWidth c rest - 1) rest
  | skip + 1, _ :: rest => 0 :: stringLowerFrom skip rest

def stringLower (value : List UInt8) : List UInt8 := stringLowerFrom 0 value

/-- Nanoseconds. -/
def second : Int64 := 1000000000

/-- `Verify`; `now` is the clock's `Unix()`. -/
def verify (H : Hashes) (secret : List UInt8) (r : Request) (signature : List UInt8) (now maxSkew : Int64) :
    Except AuthenticationError Unit :=
  match parseInt r.timestamp with
  | none => .error .malformed
  | some unixSeconds =>
    if r.timestamp = [] ∨ maxSkew < 0 then .error .malformed
    else if signature.length ≠ 64 ∨ signature ≠ stringLower signature then .error .malformed
    else
      match decodeHex signature with
      | none => .error .malformed
      | some provided =>
        if provided.length ≠ 32 then .error .malformed
        else
          let deltaSeconds := now - unixSeconds
          let maxSkewSeconds := maxSkew / second
          if maxSkewSeconds < deltaSeconds ∨ deltaSeconds < -maxSkewSeconds then .error .timestampExpired
          else
            match decodeHex (sign H secret r) with
            | none => .error .computeSignature
            | some expected => if expected ≠ provided then .error .signatureInvalid else .ok ()

/-! ## The signature -/

theorem stringLower_of_ascii {value : List UInt8} (h : ∀ c ∈ value, c.toNat < 128) :
    stringLower value = value.map lowerByte := by
  unfold stringLower
  induction value with
  | nil => rfl
  | cons c rest ih =>
    have hascii := h c mem_cons_self
    rw [stringLowerFrom, runeWidth, if_pos (by omega)]
    exact congrArg _ (ih fun d hd => h d (mem_cons_of_mem _ hd))

theorem lowerByte_eq_self_iff {c : UInt8} : lowerByte c = c ↔ notUpper c := by
  unfold lowerByte notUpper
  constructor
  · intro h hupper
    rw [if_pos hupper] at h
    have hvalue := congrArg UInt8.toNat h
    rw [toNat_ofNat (by omega)] at hvalue
    omega
  · intro h
    exact if_neg h

variable {signature : List UInt8}

/-- **A signature that decodes and is in small letters is the text of its bytes.** -/
theorem eq_encodeHex_iff {bs : List UInt8} :
    signature = encodeHex bs ↔ signature = stringLower signature ∧ decodeHex signature = some bs := by
  constructor
  · rintro rfl
    have hdecode := decodeHex_encodeHex bs
    refine ⟨?_, hdecode⟩
    rw [stringLower_of_ascii (lt_of_decodeHex hdecode)]
    refine (map_id _).symm.trans (map_congr_left fun c hc => ?_)
    exact (lowerByte_eq_self_iff.mpr (notUpper_of_mem_encodeHex hc)).symm
  · rintro ⟨hlower, hdecode⟩
    rw [stringLower_of_ascii (lt_of_decodeHex hdecode)] at hlower
    refine (encodeHex_decodeHex hdecode fun c hc => lowerByte_eq_self_iff.mp ?_).symm
    exact map_eq_map_iff.mp (hlower.symm.trans (map_id _).symm) c hc

/-! ## The clock -/

/-- The timestamp is as close to the clock as the difference tells. -/
def WithinSkew (now t maxSkew : Int64) : Prop := ¬ (maxSkew / second < now - t ∨ now - t < -(maxSkew / second))

theorem bmod_sub_cases {n t : Int} (hn : -2 ^ 63 ≤ n ∧ n < 2 ^ 63) (ht : -2 ^ 63 ≤ t ∧ t < 2 ^ 63) :
    (n - t).bmod (2 ^ 64) = n - t ∧ -2 ^ 63 ≤ n - t ∧ n - t < 2 ^ 63 ∨
      (n - t).bmod (2 ^ 64) = n - t - 2 ^ 64 ∧ 2 ^ 63 ≤ n - t ∨
      (n - t).bmod (2 ^ 64) = n - t + 2 ^ 64 ∧ n - t < -2 ^ 63 := by
  rw [Int.bmod_def]
  split <;> omega

variable {maxSkew now : Int64} {H : Hashes} {secret : List UInt8} {r : Request}

theorem toInt_maxSkewSeconds (h : 0 ≤ maxSkew.toInt) : (maxSkew / second).toInt = maxSkew.toInt / 1000000000 := by
  have hlt := maxSkew.toInt_lt
  rw [Int64.toInt_div, show second.toInt = 1000000000 from by decide, Int.tdiv_eq_ediv_of_nonneg h]
  exact Int.bmod_eq_of_le (by omega) (by omega)

/-- **The difference is right, or it has wrapped around.** -/
theorem withinSkew_iff {t : Int64} (h : 0 ≤ maxSkew.toInt) : WithinSkew now t maxSkew ↔
      |now.toInt - t.toInt| ≤ maxSkew.toInt / 1000000000 ∨
        2 ^ 64 ≤ |now.toInt - t.toInt| + maxSkew.toInt / 1000000000 := by
  have hseconds := toInt_maxSkewSeconds h
  have hmax := maxSkew.toInt_lt
  have hneg : (-(maxSkew / second)).toInt = -(maxSkew.toInt / 1000000000) := by
    rw [Int64.toInt_neg, hseconds]
    exact Int.bmod_eq_of_le (by omega) (by omega)
  have hnow := And.intro now.le_toInt now.toInt_lt
  have ht := And.intro t.le_toInt t.toInt_lt
  have hdelta := bmod_sub_cases hnow ht
  unfold WithinSkew
  rw [Int64.lt_iff_toInt_lt, Int64.lt_iff_toInt_lt, Int64.toInt_sub]
  rcases le_total 0 (now.toInt - t.toInt) with hsign | hsign
  · rw [abs_of_nonneg hsign]
    omega
  · rw [abs_of_nonpos hsign]
    omega

/-! ## Acceptance -/

/-- What `Verify` accepts. -/
theorem verify_eq_ok_iff : verify H secret r signature now maxSkew = .ok () ↔
      ∃ t, parseInt r.timestamp = some t ∧ 0 ≤ maxSkew.toInt ∧ WithinSkew now t maxSkew ∧
        signature = sign H secret r := by
  unfold verify
  cases hparse : parseInt r.timestamp with
  | none => simp
  | some t =>
    have hne : r.timestamp ≠ [] := by
      intro hnil
      rw [hnil] at hparse
      cases hparse
    have hneg : maxSkew < 0 ↔ ¬ 0 ≤ maxSkew.toInt := by
      rw [Int64.lt_iff_toInt_lt, not_le]
      rfl
    have hexpected : decodeHex (sign H secret r) = some (H.hmac secret (r.canonical H)).bytes :=
      decodeHex_encodeHex _
    simp only [hexpected]
    constructor
    · intro h
      split at h
      · cases h
      next hskew =>
      split at h
      · cases h
      next hlower =>
      split at h
      · cases h
      next hdecode =>
      split at h
      · cases h
      next =>
      split at h
      · cases h
      next hclose =>
      split at h
      · cases h
      next hequal =>
      rw [not_or, hneg, not_not] at hskew
      rw [not_or, not_not, not_not] at hlower
      rw [not_not] at hequal
      exact ⟨t, rfl, hskew.2, hclose, eq_encodeHex_iff.mpr ⟨hlower.2, hequal ▸ hdecode⟩⟩
    · rintro ⟨t', ht', hpos, hclose, rfl⟩
      cases ht'
      obtain ⟨hlower, -⟩ := eq_encodeHex_iff.mp (rfl : sign H secret r = encodeHex _)
      have hlength : (sign H secret r).length = 64 := by rw [sign, length_encodeHex, Digest.size]
      rw [if_neg (by rw [not_or, hneg, not_not]; exact ⟨hne, hpos⟩),
        if_neg (by rw [not_or, not_not, not_not]; exact ⟨hlength, hlower⟩)]
      simp only [hexpected]
      rw [if_neg (not_not.mpr (Digest.size _)), if_neg hclose, if_neg (not_not.mpr rfl)]

/-- The timestamp is a number close to the clock, and the signature is the one of the request. -/
def Exact (H : Hashes) (secret : List UInt8) (r : Request) (signature : List UInt8) (now maxSkew : Int64) : Prop :=
  ∃ t, parseInt r.timestamp = some t ∧ |now.toInt - t.toInt| ≤ maxSkew.toInt / 1000000000 ∧
    signature = sign H secret r

/-- The request is signed, and its timestamp is so far from the clock that the difference wraps around to
something small. -/
def WrapsAround (H : Hashes) (secret : List UInt8) (r : Request) (signature : List UInt8)
    (now maxSkew : Int64) : Prop :=
  ∃ t, parseInt r.timestamp = some t ∧ 0 ≤ maxSkew.toInt ∧
    2 ^ 64 ≤ |now.toInt - t.toInt| + maxSkew.toInt / 1000000000 ∧ signature = sign H secret r

theorem verify_eq_ok_iff_exact_or : verify H secret r signature now maxSkew = .ok () ↔
      Exact H secret r signature now maxSkew ∨ WrapsAround H secret r signature now maxSkew := by
  rw [verify_eq_ok_iff]
  constructor
  · rintro ⟨t, hparse, hpos, hclose, hsign⟩
    rcases (withinSkew_iff hpos).mp hclose with hclose | hclose
    · exact .inl ⟨t, hparse, hclose, hsign⟩
    · exact .inr ⟨t, hparse, hpos, hclose, hsign⟩
  · rintro (⟨t, hparse, hclose, hsign⟩ | ⟨t, hparse, hpos, hclose, hsign⟩)
    · have hpos : 0 ≤ maxSkew.toInt := by
        have := abs_nonneg (now.toInt - t.toInt)
        omega
      exact ⟨t, hparse, hpos, (withinSkew_iff hpos).mpr (.inl hclose), hsign⟩
    · exact ⟨t, hparse, hpos, (withinSkew_iff hpos).mpr (.inr hclose), hsign⟩

/-- **The difference to a clock of our times does not wrap around into the window**, whatever the timestamp is. -/
theorem not_wrapsAround (hnow : |now.toInt| ≤ 2 ^ 62) : ¬ WrapsAround H secret r signature now maxSkew := by
  rintro ⟨t, -, -, hfar, -⟩
  have ht := And.intro t.le_toInt t.toInt_lt
  have hmax := maxSkew.toInt_lt
  have hupper := le_abs_self now.toInt
  have hlower := neg_abs_le now.toInt
  rcases le_total 0 (now.toInt - t.toInt) with hsign | hsign
  · rw [abs_of_nonneg hsign] at hfar
    omega
  · rw [abs_of_nonpos hsign] at hfar
    omega

/-! ## Binding -/

theorem encodeHex_injective {bs cs : List UInt8} (h : encodeHex bs = encodeHex cs) : bs = cs :=
  Option.some.inj ((decodeHex_encodeHex bs).symm.trans (h ▸ decodeHex_encodeHex cs))

/-- **The text that is signed tells the request**, apart from a collision of bodies. -/
theorem canonical_injective {r' : Request} (h : r.canonical H = r'.canonical H)
    (hts : 10 ∉ r.timestamp ∧ 10 ∉ r'.timestamp) (hm : 10 ∉ r.method ∧ 10 ∉ r'.method)
    (ht : 10 ∉ r.target ∧ 10 ∉ r'.target) (hsha : H.sha256 r.body = H.sha256 r'.body → r.body = r'.body) :
    r = r' := by
  obtain ⟨htimestamp, h⟩ := append_sep_inj hts.1 hts.2 h
  obtain ⟨hmethod, h⟩ := append_sep_inj hm.1 hm.2 h
  obtain ⟨htarget, h⟩ := append_sep_inj ht.1 ht.2 h
  have hbody := hsha (Digest.ext (encodeHex_injective h))
  cases r
  cases r'
  simp_all

theorem not_mem_of_parseInt {text : List UInt8} {t : Int64} (h : parseInt text = some t) : 10 ∉ text := by
  intro hmem
  exact absurd (bounds_of_parseInt h 10 hmem).1 (by decide)

/-- **Signatures are exact.** With a clock less than 2^62 seconds from 1970 a request is accepted if and only if its
timestamp is close to the clock and its signature is right; and a signature that is accepted for one request is rejected
for every other one, unless two of the texts that are hashed collide. -/
theorem verify_exact (H : Hashes) (secret : List UInt8) (r : Request) (signature : List UInt8) (now maxSkew : Int64) :
    (|now.toInt| ≤ 2 ^ 62 →
      (verify H secret r signature now maxSkew = .ok () ↔ Exact H secret r signature now maxSkew)) ∧
    ∀ (r' : Request) (now' maxSkew' : Int64), 10 ∉ r.method → 10 ∉ r.target → 10 ∉ r'.method → 10 ∉ r'.target →
      (H.sha256 r.body = H.sha256 r'.body → r.body = r'.body) →
      (H.hmac secret (r.canonical H) = H.hmac secret (r'.canonical H) → r.canonical H = r'.canonical H) →
      verify H secret r signature now maxSkew = .ok () → r' ≠ r →
      verify H secret r' signature now' maxSkew' ≠ .ok () := by
  constructor
  · intro hnow
    rw [verify_eq_ok_iff_exact_or]
    exact or_iff_left (not_wrapsAround hnow)
  · intro r' now' maxSkew' hm ht hm' ht' hsha hhmac haccepted hne haccepted'
    obtain ⟨t, hparse, -, -, hsign⟩ := verify_eq_ok_iff.mp haccepted
    obtain ⟨t', hparse', -, -, hsign'⟩ := verify_eq_ok_iff.mp haccepted'
    have hmac := hhmac (Digest.ext (encodeHex_injective (hsign.symm.trans hsign')))
    exact hne (canonical_injective hmac ⟨not_mem_of_parseInt hparse, not_mem_of_parseInt hparse'⟩ ⟨hm, hm'⟩ ⟨ht, ht'⟩
      hsha).symm

/-- Hash functions that keep the first bytes. -/
def sampleHashes : Hashes where
  sha256 body := ⟨(body ++ replicate 32 0).take 32, by simp⟩
  hmac _ text := ⟨(text ++ replicate 32 0).take 32, by simp⟩

def sampleRequest (method : String) : Request := ⟨ascii "1700000000", ascii method, ascii "/", []⟩

/-- The signature of a GET is accepted for it and not for a PUT. -/
theorem verify_exact_method :
    verify sampleHashes [] (sampleRequest "GET") (sign sampleHashes [] (sampleRequest "GET")) 1700000000
      second = .ok () ∧
    verify sampleHashes [] (sampleRequest "PUT") (sign sampleHashes [] (sampleRequest "GET")) 1700000000
      second ≠ .ok () := by
  have hexact := verify_exact sampleHashes [] (sampleRequest "GET")
    (sign sampleHashes [] (sampleRequest "GET")) 1700000000
    second
  have haccepted := (hexact.1 (by decide)).mpr ⟨1700000000, by decide, by decide, rfl⟩
  exact ⟨haccepted, hexact.2 (sampleRequest "PUT") 1700000000 second (by decide) (by decide) (by decide) (by decide)
    (fun _ => rfl) (fun h => absurd (congrArg Digest.bytes h) (by decide)) haccepted (by decide)⟩

end RelayHub.Auth
