import RelayHub.Realtime.Calls

/-! # RelayHub realtime — pages of a history

`Read` asks Redis for one entry more than a page holds, newest first, and turns the page round. A client follows
the cursors from the newest page to the oldest while others append and the oldest entries are dropped. -/

namespace RelayHub.Realtime

open List

/-- Stream entries, with their ids. -/
abbrev Entries := List (Nat × ChannelFrame)

def Chronological (s : Entries) : Prop := s.Pairwise fun a b => a.1 < b.1

/-- What a cursor leaves to read. -/
def olderThan (cursor : Option Nat) (s : Entries) : Entries := s.filter fun e => cursor.all fun id => e.1 < id

/-- The page that `Read` returns, and the id in the cursor of the next one. -/
def readPage (limit : Nat) (cursor : Option Nat) (s : Entries) : Entries × Option Nat :=
  let found := newestBefore cursor (limit + 1) s
  let page := found.take limit
  (page.reverse, if limit < found.length then page.getLast?.map (·.1) else none)

/-- The pages up to the one without a next cursor, each read from the stream as it is by then. -/
def traverse (limit : Nat) : Option Nat → List Entries → Option (List Entries)
  | _, [] => none
  | cursor, s :: later =>
    match readPage limit cursor s with
    | (page, none) => some [page]
    | (page, some id) => (traverse limit (some id) later).map (page :: ·)

section

variable {limit n : Nat} {cursor : Option Nat} {s page : Entries} (h : Chronological s) (hlimit : 0 < limit)

/-- The page is the newest part of what is left, and it has a next one if it is not all of that. -/
theorem readPage_eq : readPage limit cursor s = ((olderThan cursor s).rtake limit,
    if limit < (olderThan cursor s).length then ((olderThan cursor s).rtake limit).head?.map (·.1) else none) := by
  have hfound : newestBefore cursor (limit + 1) s = (olderThan cursor s).reverse.take (limit + 1) := by
    rw [newestBefore, olderThan, filter_reverse]
  have hpage : ((olderThan cursor s).reverse.take (limit + 1)).take limit =
      ((olderThan cursor s).rtake limit).reverse := by
    rw [take_take, Nat.min_eq_left (Nat.le_succ limit), rtake_eq_reverse_take_reverse, reverse_reverse]
  simp only [readPage, hfound, hpage, reverse_reverse, getLast?_reverse, length_take, length_reverse]
  simp

include h in
/-- The cursor of the next page leaves what the page does not hold. -/
theorem readPage_next {id : Nat} (hpage : readPage limit cursor s = (page, some id)) :
    olderThan (some id) s ++ page = olderThan cursor s ∧ page ≠ [] ∧ ∃ e ∈ s, e.1 = id := by
  rw [readPage_eq] at hpage
  obtain ⟨rfl, hnext⟩ := Prod.mk.inj hpage
  have hhead : ((olderThan cursor s).rtake limit).head?.map (·.1) = some id := (by simpa using hnext : _ ∧ _).2
  have hsplit := take_append_drop ((olderThan cursor s).length - limit) (olderThan cursor s)
  have hleft : Chronological (olderThan cursor s) := h.sublist filter_sublist
  rw [rtake] at hhead ⊢
  generalize (olderThan cursor s).take _ = older, (olderThan cursor s).drop _ = page at hsplit hhead ⊢
  obtain ⟨e, rest, rfl⟩ := exists_cons_of_ne_nil (show page ≠ [] by rintro rfl; simp at hhead)
  obtain rfl : e.1 = id := by simpa using hhead
  have he : e ∈ olderThan cursor s := hsplit ▸ by simp
  -- below the first entry of the page is what stands before it
  have hbelow : olderThan (some e.1) s = (olderThan cursor s).filter (·.1 < e.1) := by
    have he' := (mem_filter.mp he).2
    rw [olderThan, olderThan, filter_filter]
    refine filter_congr fun x _ => ?_
    cases cursor <;> simp at he' ⊢
    omega
  rw [← hsplit, Chronological, pairwise_append, pairwise_cons] at hleft
  have holder : ∀ a ∈ older, decide (a.1 < e.1) = true := fun a ha => decide_eq_true (hleft.2.2 a ha e mem_cons_self)
  have hpage : ∀ a ∈ e :: rest, ¬ decide (a.1 < e.1) = true := by
    simpa using fun i f ha => (hleft.2.1.1 (i, f) ha).le
  rw [hbelow, ← hsplit, filter_append, filter_eq_self.mpr holder, filter_eq_nil_iff.mpr hpage, append_nil]
  exact ⟨rfl, cons_ne_nil _ _, e, mem_of_mem_filter he, rfl⟩

include hlimit in
theorem readPage_last (hpage : readPage limit cursor s = (page, none)) : page = olderThan cursor s := by
  rw [readPage_eq] at hpage
  obtain ⟨rfl, hnext⟩ := Prod.mk.inj hpage
  have hall : (olderThan cursor s).length ≤ limit := by
    by_contra hmore
    simp only [if_pos (not_le.mp hmore), Option.map_eq_none_iff, head?_eq_none_iff, rtake, drop_eq_nil_iff] at hnext
    omega
  rw [rtake, Nat.sub_eq_zero_of_le hall, drop_zero]

include h hlimit in
/-- **A traversal of a stream that does not change** reads what its cursor leaves, and it ends. -/
theorem traverse_still (hn : (olderThan cursor s).length < n) : ∃ pages,
    traverse limit cursor (replicate n s) = some pages ∧ pages.reverse.flatten = olderThan cursor s := by
  induction n generalizing cursor with
  | zero => cases hn
  | succ n ih =>
    simp only [replicate_succ, traverse]
    split
    next page hpage => exact ⟨[page], rfl, by simp [readPage_last hlimit hpage]⟩
    next page id hpage =>
      -- a page with a next one is not empty, so less is left
      obtain ⟨hsplit, hne, -⟩ := readPage_next h hpage
      have hlength : (olderThan (some id) s).length < n := by
        have hpos := length_pos_of_ne_nil hne
        rw [← hsplit, length_append] at hn
        omega
      obtain ⟨pages, htraverse, hpages⟩ := ih hlength
      exact ⟨page :: pages, by rw [htraverse, Option.map_some], by simp [hpages, hsplit]⟩

include h in
theorem count_olderThan {x : Nat × ChannelFrame} (hx : x ∈ s) (cursor : Option Nat) :
    (olderThan cursor s).count x = if (cursor.all fun id => x.1 < id) = true then 1 else 0 := by
  have hnodup : s.Nodup := h.imp fun hlt heq => by simp [heq] at hlt
  split
  next hbelow => exact count_eq_one_of_mem (hnodup.filter _) (mem_filter.mpr ⟨hx, hbelow⟩)
  next hbelow => exact count_eq_zero.mpr fun hmem => hbelow (mem_filter.mp hmem).2

/-- What is on a page was in the stream. -/
theorem mem_of_traverse {streams pages : List Entries} (hpages : traverse limit cursor streams = some pages)
    {e : Nat × ChannelFrame} (he : e ∈ pages.flatten) : ∃ s ∈ streams, e ∈ s := by
  induction streams generalizing cursor pages with
  | nil => cases hpages
  | cons s later ih =>
    have hfound : ∀ e ∈ (readPage limit cursor s).1, e ∈ s := by
      rw [readPage_eq]
      exact fun e he => mem_of_mem_filter (mem_of_mem_drop he)
    simp only [traverse] at hpages
    split at hpages
    next page hpage =>
      cases hpages
      rw [flatten_singleton] at he
      exact ⟨s, mem_cons_self, hfound e (hpage ▸ he)⟩
    next page id hpage =>
      obtain ⟨rest, hrest, rfl⟩ := Option.map_eq_some_iff.mp hpages
      rcases mem_append.mp (flatten_cons ▸ he) with he | he
      · exact ⟨s, mem_cons_self, hfound e (hpage ▸ he)⟩
      · obtain ⟨s', hs', he⟩ := ih hrest he
        exact ⟨s', mem_cons_of_mem _ hs', he⟩

include hlimit in
/-- **An entry that is there whenever a page is read** is on exactly one of them. -/
theorem traverse_count {streams pages : List Entries} {x : Nat × ChannelFrame}
    (hstreams : ∀ s ∈ streams, Chronological s ∧ x ∈ s) (h : traverse limit cursor streams = some pages) :
    pages.flatten.count x = if (cursor.all fun id => x.1 < id) = true then 1 else 0 := by
  induction streams generalizing cursor pages with
  | nil => cases h
  | cons s later ih =>
    obtain ⟨hs, hx⟩ := hstreams s mem_cons_self
    rw [← count_olderThan hs hx]
    simp only [traverse] at h
    split at h
    next page hpage =>
      cases h
      rw [flatten_singleton, readPage_last hlimit hpage]
    next page id hpage =>
      obtain ⟨rest, hrest, rfl⟩ := Option.map_eq_some_iff.mp h
      rw [flatten_cons, count_append, ih (fun s hs => hstreams s (mem_cons_of_mem _ hs)) hrest,
        ← count_olderThan hs hx, ← (readPage_next hs hpage).1, count_append, Nat.add_comm]

end

/-! ## Cursors -/

section Cursors

variable {id : Nat}

theorem streamIdText_digits (id : Nat) : ∀ c ∈ streamIdText id, c.isDigit = true ∨ c = '-' := by
  have hdigit (n c) (hc : c ∈ Nat.toDigits 10 n) : c.isDigit = true :=
    Nat.isDigit_of_mem_toDigits (by omega) (by omega) hc
  intro c hc
  rcases mem_append.mp hc with hc | hc
  · exact .inl (hdigit _ c hc)
  · exact (mem_cons.mp hc).symm.imp_left (hdigit _ c)

theorem streamIdText_bytes (id : Nat) : ∀ b ∈ (streamIdText id).map Char.toNat, b < 256 := by
  rintro b hb
  obtain ⟨c, hc, rfl⟩ := mem_map.mp hb
  rcases streamIdText_digits id c hc with hc | rfl
  · have hle : c.val.toNat ≤ 57 := by
      simp only [Char.isDigit, Bool.and_eq_true, decide_eq_true_eq] at hc
      exact hc.2
    exact Nat.lt_of_le_of_lt hle (by decide)
  · decide

theorem parseStreamId_text (id : Nat) : parseStreamId (streamIdText id) = some (id / 2 ^ 64, id % 2 ^ 64) := by
  have hall (n) : ∀ c ∈ Nat.toDigits 10 n, c.isDigit = true := fun c =>
    Nat.isDigit_of_mem_toDigits (by omega) (by omega)
  have hne (n) : Nat.toDigits 10 n ≠ [] := Nat.toDigits_ne_nil
  unfold parseStreamId streamIdText
  rw [takeWhile_append_of_pos (hall _), dropWhile_append_of_pos (hall _)]
  simpa [hne, Nat.ofDigitChars_ten_toDigits] using hall _

theorem length_toDigits_le {n : Nat} (h : n < 2 ^ 64) : (Nat.toDigits 10 n).length ≤ 20 :=
  (Nat.length_toDigits_le_iff (by omega) (by omega)).mpr (h.trans (by decide))

theorem matchesCursorPattern_encode (h : id < 2 ^ 128) : matchesCursorPattern (encodeHistoryCursor id) = true := by
  have hchars : (Base64.alphabet.all fun c => c.isAlphanum || c = '_' || c = '-') = true := by decide +kernel
  have hlength : (streamIdText id).length ≤ 41 := by
    have hms := length_toDigits_le (n := id / 2 ^ 64) (by omega)
    have hseq := length_toDigits_le (n := id % 2 ^ 64) (by omega)
    rw [streamIdText, length_append, length_cons]
    omega
  have hpos : 0 < (streamIdText id).length := by simp [streamIdText]
  have hencoded := Base64.length_encode ((streamIdText id).map Char.toNat)
  rw [length_map] at hencoded
  simp only [matchesCursorPattern, encodeHistoryCursor, String.toList_ofList, Bool.and_eq_true, decide_eq_true_eq]
  refine ⟨⟨by omega, by omega⟩, all_eq_true.mpr fun c hc => all_eq_true.mp hchars c ?_⟩
  exact Base64.mem_alphabet_of_encode (streamIdText_bytes id) c hc

theorem encodeHistoryCursor_ne (h : id < 2 ^ 128) : encodeHistoryCursor id ≠ "" := by
  intro hempty
  have hpattern := matchesCursorPattern_encode h
  simp [hempty, matchesCursorPattern] at hpattern

/-- **A cursor is read as it was written.** -/
theorem decodeCursor_encode (h : id < 2 ^ 128) :
    decodeCursor (encodeHistoryCursor id) = some (some (id / 2 ^ 64, id % 2 ^ 64)) := by
  have hback : ((streamIdText id).map Char.toNat).map Char.ofNat = streamIdText id := by
    simp [Function.comp_def, Char.ofNat_toNat]
  rw [decodeCursor, if_neg (encodeHistoryCursor_ne h), decodeHistoryCursor, encodeHistoryCursor, String.toList_ofList,
    Base64.decode_encode (streamIdText_bytes id), Option.bind_some, hback, parseStreamId_text, Option.map_some]

end Cursors

/-! ## The calls -/

/-- What `HistoryForApp` answers when Redis does. -/
def historyOn (E : Env) (app : AppId) (channel : String) (w : World) (r : HistoryRequest) :
    Except ProtocolError ServerFrame :=
  (historyForApp E app channel r).result fun s => (s.run E w {}).1

/-- The pages of a client that follows `next_cursor` until it is empty. -/
def follow (E : Env) (app : AppId) (channel : String) (limit : Nat) :
    String → List World → Option (List (List ChannelFrame))
  | _, [] => none
  | cursor, w :: later =>
    match historyOn E app channel w ⟨limit, cursor⟩ with
    | .ok (.history _ items next _) =>
      if next = "" then some [items] else (follow E app channel limit next later).map (items :: ·)
    | _ => none

/-- Redis holds the stream of the channel, and what the gateway appended is in it. -/
structure Holds (E : Env) (app : AppId) (channel : String) (w : World) (s : Entries) : Prop where
  valid : validRealtimeChannel channel = true
  stream : ∃ maxLen key, E.historyStore = some maxLen ∧ historyKey E maxLen app channel = some key ∧
    (w.redis key).toStream = some s
  chronological : Chronological s
  ids : ∀ e ∈ s, e.1 < 2 ^ 128
  historical : ∀ e ∈ s, historical E app channel e.2 = true

/-- The entry on a page. -/
def pageItem (e : Nat × ChannelFrame) : ChannelFrame := { e.2 with cursor := encodeHistoryCursor e.1 }

def cursorText (cursor : Option Nat) : String := (cursor.map encodeHistoryCursor).getD ""

section Calls

variable {E : Env} {app : AppId} {channel : String} {w : World} {s : Entries} {limit : Nat} {cursor : Option Nat}

theorem historyOn_eq (h : Holds E app channel w s) (hlimit : 1 ≤ limit ∧ limit ≤ 100)
    (hcursor : ∀ id ∈ cursor, id < 2 ^ 128) :
    historyOn E app channel w ⟨limit, cursorText cursor⟩ =
      .ok (historyResult channel (historyPage limit (newestBefore cursor (limit + 1) s)).1
        (historyPage limit (newestBefore cursor (limit + 1) s)).2) := by
  obtain ⟨maxLen, key, hstore, hkey, hstream⟩ := h.stream
  have hdecode : decodeCursor (cursorText cursor) = some (cursor.map fun id => (id / 2 ^ 64, id % 2 ^ 64)) := by
    cases cursor with
    | none => rfl
    | some id => exact decodeCursor_encode (hcursor id rfl)
  have hrequest : validateHistoryRequest ⟨limit, cursorText cursor⟩ = none := by
    have hpattern : cursorText cursor = "" ∨ matchesCursorPattern (cursorText cursor) = true := by
      cases cursor with
      | none => exact .inl rfl
      | some id => exact .inr (matchesCursorPattern_encode (hcursor id rfl))
    refine if_neg ?_
    rcases hpattern with hpattern | hpattern <;> simp [hpattern, maxHistoryItems] <;> omega
  have hbefore : (cursor.map fun id => (id / 2 ^ 64, id % 2 ^ 64)).map (fun id => id.1 * 2 ^ 64 + id.2) = cursor := by
    cases cursor <;> simp [Nat.div_add_mod']
  have hsmall : ((cursor.map fun id => (id / 2 ^ 64, id % 2 ^ 64)).any fun id => 2 ^ 64 ≤ id.1 ||
      2 ^ 64 ≤ id.2) = false := by
    cases cursor with
    | none => rfl
    | some id =>
      have hid := hcursor id rfl
      simp
      omega
  have hread : (readHistory E maxLen app channel ⟨limit, cursorText cursor⟩).result (fun s => (s.run E w {}).1) =
      .ok (historyPage limit (newestBefore cursor (limit + 1) s)) := by
    have hrange : ((limit : Int) < 1 || 100 < (limit : Int)) = false := by
      simp
      omega
    have hreply : ((Statement.redis (.readHistory key cursor (limit + 1))).run E w {}).1 =
        .redis (.entries (newestBefore cursor (limit + 1) s)) := by
      simp [Statement.run, RedisOp.run, RedisOp.eval, RedisOp.keys, hstream]
    simp only [readHistory, hkey, hdecode, hrange, hsmall, hbefore, Bool.false_eq_true, if_false, redis,
      Int.toNat_natCast, Program.result_bind, Program.result_perform, hreply, Program.result_pure]
  have hall : ((historyPage limit (newestBefore cursor (limit + 1) s)).1.all fun e =>
      historical E app channel e.2) = true := by
    simp only [historyPage, all_reverse, all_map, all_eq_true]
    intro e he
    exact h.historical e (mem_reverse.mp (mem_of_mem_filter (mem_of_mem_take (mem_of_mem_take he))))
  simp [historyOn, historyForApp, h.valid, hrequest, hstore, hread, hall]

theorem historyPage_eq (limit : Nat) (cursor : Option Nat) (s : Entries) :
    historyPage limit (newestBefore cursor (limit + 1) s) =
      ((readPage limit cursor s).1.map fun e => (encodeHistoryCursor e.1, e.2),
        cursorText (readPage limit cursor s).2) := by
  simp only [historyPage, readPage, map_reverse, cursorText]
  split <;> simp [Function.comp_def]

/-- The calls read the pages of the stream. -/
theorem follow_eq (hlimit : 1 ≤ limit ∧ limit ≤ 100) (worlds : List (World × Entries))
    (h : ∀ x ∈ worlds, Holds E app channel x.1 x.2) (hcursor : ∀ id ∈ cursor, id < 2 ^ 128) :
    follow E app channel limit (cursorText cursor) (worlds.map Prod.fst) =
      (traverse limit cursor (worlds.map Prod.snd)).map fun pages => pages.map (·.map pageItem) := by
  induction worlds generalizing cursor with
  | nil => rfl
  | cons x worlds ih =>
    obtain ⟨hx, hrest⟩ := forall_mem_cons.mp h
    rw [map_cons, map_cons, follow, traverse, historyOn_eq hx hlimit hcursor, historyPage_eq]
    simp only [historyResult]
    cases hpage : readPage limit cursor x.2 with
    | mk page next =>
      cases next with
      | none => simp [cursorText, pageItem, Function.comp_def]
      | some id =>
        obtain ⟨-, -, e, he, rfl⟩ := readPage_next hx.chronological hpage
        have hid : e.1 < 2 ^ 128 := hx.ids e he
        have hnext : cursorText (some e.1) ≠ "" := encodeHistoryCursor_ne hid
        dsimp only
        rw [if_neg hnext, ih hrest (by simpa using hid), map_map, Option.map_map, Option.map_map]
        rfl

end Calls

end RelayHub.Realtime
