import RelayHub.Realtime.Channels

/-! # RelayHub realtime — what a grant covers

The code decides by cutting and searching texts whether a grant matches a channel. `Covers` says it in terms
of the segments between the colons: a grant covers the channel it names, or the channels one segment below
its namespace. -/

namespace RelayHub.Realtime

open List Text

/-- What stands between the colons. -/
def segments (value : String) : List (List Char) := value.toList.splitOn ':'

/-- A channel name without an empty segment. -/
def CompleteChannel (value : String) : Prop := validRealtimeChannel value = true ∧ [] ∉ segments value

/-- A grant covers a channel: it is the channel, or the namespace that the channel is in. -/
def Covers (grant channel : String) : Prop :=
  validRealtimeChannel channel = true ∧ (CompleteChannel grant ∧ grant = channel ∨
      ∃ namesp segment, grant = namesp ++ ":*" ∧ CompleteChannel namesp ∧ segment ≠ [] ∧
        segments channel = segments namesp ++ [segment])

/-! ## Segments -/

theorem segments_append (namesp rest : String) :
    segments (namesp ++ ":" ++ rest) = segments namesp ++ segments rest := by
  have hchars : (namesp ++ ":" ++ rest).toList = namesp.toList ++ ':' :: rest.toList := by simp
  unfold segments
  rw [hchars, splitOn_append_cons_self]

theorem segments_ne_nil (value : String) : segments value ≠ [] := splitOn_ne_nil _ _

theorem not_mem_of_segments_eq_singleton {rest : String} {segment : List Char} (h : segments rest = [segment]) :
    ':' ∉ rest.toList := by
  intro hcolon
  obtain ⟨front, back, hsplit⟩ := append_of_mem hcolon
  have hfront := length_pos_of_ne_nil (splitOn_ne_nil ':' front)
  have hback := length_pos_of_ne_nil (splitOn_ne_nil ':' back)
  have hlen := congrArg List.length h
  rw [segments, hsplit, splitOn_append_cons_self, length_append, length_singleton] at hlen
  omega

theorem intercalate_concat {sep : Char} {xs : List (List Char)} (h : xs ≠ []) (y : List Char) :
    [sep].intercalate (xs ++ [y]) = [sep].intercalate xs ++ sep :: y := by
  induction xs with
  | nil => exact absurd rfl h
  | cons x xs ih =>
    cases xs with
    | nil => simp [intercalate_singleton]
    | cons =>
      rw [cons_append, cons_append, intercalate_cons_cons, ← cons_append, ih (cons_ne_nil _ _)]
      simp

variable {channel : String}

theorem segments_eq_concat_iff {namesp : String} {segment : List Char} :
    segments channel = segments namesp ++ [segment] ↔
      channel = namesp ++ ":" ++ String.ofList segment ∧ ':' ∉ segment := by
  constructor
  · intro h
    have hchannel : channel = namesp ++ ":" ++ .ofList segment := by
      have hjoin : [':'].intercalate (segments namesp ++ [segment]) = _ :=
        intercalate_concat (segments_ne_nil namesp) segment
      rw [← h, segments, segments, intercalate_splitOn] at hjoin
      rw [← String.toList_inj, hjoin]
      simp
    rw [hchannel, segments_append] at h
    have hpiece := not_mem_of_segments_eq_singleton (append_cancel_left h)
    exact ⟨hchannel, by simpa using hpiece⟩
  · rintro ⟨rfl, hcolon⟩
    rw [segments_append]
    have hpiece : segments (.ofList segment) = [segment] := by
      rw [segments, String.toList_ofList, splitOn_eq_singleton hcolon]
    rw [hpiece]

/-! ## The code's decision -/

theorem completeRealtimeNamespace_iff {value : String} :
    completeRealtimeNamespace value = true ↔ [] ∉ segments value := by
  unfold completeRealtimeNamespace segments
  rw [all_eq_true]
  constructor
  · intro h hmem
    simpa using h [] hmem
  · intro h segment hmem
    cases segment with
    | nil => exact absurd hmem h
    | cons => rfl

theorem not_mem_of_validRealtimeChannel (h : validRealtimeChannel channel = true) : '*' ∉ channel.toList := by
  simp only [validRealtimeChannel, matchesChannelPattern, Bool.and_eq_true] at h
  have hpattern := h.2
  intro hmem
  split at hpattern
  next => cases hpattern
  next hchars =>
  simp only [Bool.and_eq_true, all_eq_true] at hpattern
  rw [hchars] at hmem
  rcases mem_cons.mp hmem with rfl | hrest
  · exact absurd hpattern.1.1 (by decide)
  · exact absurd (hpattern.2 _ hrest) (by decide)

theorem ne_empty_of_validRealtimeChannel (h : validRealtimeChannel channel = true) : channel ≠ "" := by
  rintro rfl
  exact absurd h (by decide)

/-- A valid grant is a complete channel, or a complete namespace and a wildcard. -/
theorem validRealtimeChannelGrant_iff {grant : String} : validRealtimeChannelGrant grant = true ↔
      CompleteChannel grant ∨ ∃ namesp, grant = namesp ++ ":*" ∧ CompleteChannel namesp := by
  unfold validRealtimeChannelGrant CompleteChannel
  rw [Bool.or_eq_true, Bool.and_eq_true, completeRealtimeNamespace_iff]
  refine or_congr_right ?_
  constructor
  · intro h
    split at h
    next => cases h
    next namesp hcut =>
      simp only [Bool.and_eq_true, completeRealtimeNamespace_iff] at h
      exact ⟨namesp, cutSuffix_eq_some_iff.mp hcut, h.1.2, h.2⟩
  · rintro ⟨namesp, rfl, hvalid, hcomplete⟩
    have hcount : (namesp ++ ":*").toList.count '*' = 1 := by
      rw [String.toList_append, count_append, count_eq_zero_of_not_mem (not_mem_of_validRealtimeChannel hvalid)]
      decide
    rw [cutSuffix_eq_some_iff.mpr rfl]
    simp only [Bool.and_eq_true, decide_eq_true_eq, completeRealtimeNamespace_iff]
    exact ⟨⟨⟨hcount, ne_empty_of_validRealtimeChannel hvalid⟩, hvalid⟩, hcomplete⟩

/-- **The code's decision is that the grant covers the channel.** -/
theorem matches_iff_covers (grant channel : String) :
    realtimeChannelGrantMatches grant channel = true ↔ Covers grant channel := by
  unfold realtimeChannelGrantMatches Covers
  rw [Bool.and_eq_true, Bool.and_eq_true, and_assoc, Bool.or_eq_true, decide_eq_true_eq, validRealtimeChannelGrant_iff]
  refine and_congr_right fun hchannel => ?_
  constructor
  · rintro ⟨hgrant, rfl | hcut⟩
    · rcases hgrant with hexact | ⟨namesp, rfl, -⟩
      · exact .inl ⟨hexact, rfl⟩
      · -- a channel name does not end in a wildcard
        exact absurd (by simp) (not_mem_of_validRealtimeChannel hchannel)
    · split at hcut
      next => cases hcut
      next namesp hsuffix =>
      obtain rfl := cutSuffix_eq_some_iff.mp hsuffix
      split at hcut
      next => cases hcut
      next remainder hprefix =>
      simp only [Bool.and_eq_true, decide_eq_true_eq, Bool.not_eq_true', contains_eq_mem,
        decide_eq_false_iff_not] at hcut
      have hcomplete : CompleteChannel namesp := by
        rcases hgrant with hexact | ⟨namesp', hname, hcomplete⟩
        · exact absurd (by simp) (not_mem_of_validRealtimeChannel hexact.1)
        · rwa [(String.append_left_inj _).mp hname]
      refine .inr ⟨namesp, remainder.toList, rfl, hcomplete, ?_, ?_⟩
      · rw [Ne, String.toList_eq_nil_iff]
        exact hcut.1
      · rw [segments_eq_concat_iff, String.ofList_toList]
        exact ⟨cutPrefix_eq_some_iff.mp hprefix, hcut.2⟩
  · rintro (⟨hexact, rfl⟩ | ⟨namesp, segment, rfl, hcomplete, hne, hsegments⟩)
    · exact ⟨.inl hexact, .inl rfl⟩
    obtain ⟨rfl, hcolon⟩ := segments_eq_concat_iff.mp hsegments
    refine ⟨.inr ⟨namesp, rfl, hcomplete⟩, .inr ?_⟩
    rw [cutSuffix_eq_some_iff.mpr rfl]
    simp only
    rw [cutPrefix_eq_some_iff.mpr rfl]
    simpa using ⟨hne, hcolon⟩

theorem segments_of_matches_wildcard {namesp : String}
    (h : realtimeChannelGrantMatches (namesp ++ ":*") channel = true) :
    ∃ segment, segments channel = segments namesp ++ [segment] := by
  obtain ⟨hchannel, ⟨hexact, rfl⟩ | ⟨namesp', segment, hname, -, -, hsegments⟩⟩ := (matches_iff_covers _ _).mp h
  · exact absurd (by simp) (not_mem_of_validRealtimeChannel hchannel)
  · rw [(String.append_left_inj _).mp hname]
    exact ⟨segment, hsegments⟩

/-- **Grants have segment semantics.** A grant matches what it covers, a session is allowed what one of its
grants covers, and a wildcard matches neither its own namespace, nor a deeper channel, nor one of another
namespace. -/
theorem grants_cover_segments :
    (∀ grant channel, realtimeChannelGrantMatches grant channel = true ↔ Covers grant channel) ∧
    (∀ (p : Peer) channel action, p.allowed channel action = true ↔
      ∃ grant ∈ p.capabilities, action ∈ grant.2 ∧ Covers grant.1 channel) ∧
    (∀ namesp, realtimeChannelGrantMatches (namesp ++ ":*") namesp = false) ∧
    (∀ namesp channel, (segments namesp).length + 1 < (segments channel).length →
      realtimeChannelGrantMatches (namesp ++ ":*") channel = false) ∧
    ∀ namesp channel, ¬ segments namesp <+: segments channel →
      realtimeChannelGrantMatches (namesp ++ ":*") channel = false := by
  refine ⟨matches_iff_covers, fun p channel action => ?_, fun namesp => ?_, fun namesp channel hdeep => ?_,
    fun namesp channel hother => ?_⟩
  · simp only [Peer.allowed, any_eq_true, Bool.and_eq_true, contains_eq_mem, decide_eq_true_eq,
      matches_iff_covers]
  all_goals
    rw [Bool.eq_false_iff]
    intro hmatches
    obtain ⟨segment, hsegments⟩ := segments_of_matches_wildcard hmatches
  · have hlen := congrArg List.length hsegments
    simp at hlen
  · rw [hsegments] at hdeep
    simp at hdeep
  · exact hother ⟨[segment], hsegments.symm⟩

end RelayHub.Realtime
