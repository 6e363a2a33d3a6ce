import RelayHub.Admin.Sessions

/-! # RelayHub admin — revoked sessions

A session that is logged out or whose user is revoked can come back: `Refresh` reads it and writes it back
whatever has happened in between. In a run where every write of a session finds its record still there, it
does not. `Mode` says what a call has done about it so far, and `Settled` is the invariant: as long as the record is
there, no call has deleted it, and every scan for its user is still to come to it. -/

namespace RelayHub.Admin

open List Program Pool Dict

/-! ## What statements do to a session -/

/-- The record of a session. -/
def Alive (id : String) (db : Sessions) : Prop := ∃ s, db.lookup id = some (.record s)

instance (id : String) (db : Sessions) : Decidable (Alive id db) :=
  match h : db.lookup id with
  | some (.record s) => isTrue ⟨s, h⟩
  | some .garbage => isFalse fun ⟨s, hs⟩ => by simp [h] at hs
  | none => isFalse fun ⟨s, hs⟩ => by simp [h] at hs

variable {c : Choice} {db : Sessions} {id : String} (H : Auth.Hashes)

/-- **A record is there after a statement if it was before, or if the statement writes it**; its user stays. -/
theorem alive_run {st : Statement} {s' : AdminSession} (h : (st.run c db).2.lookup id = some (.record s')) :
    (∃ s, db.lookup id = some (.record s) ∧ s'.userId = s.userId) ∨ st = .set s' ∧ s'.id = id ∧ c.fate ≠ .refused := by
  have heval : (st.eval c.now db).2.lookup id = some (.record s') →
      (∃ s, db.lookup id = some (.record s) ∧ s'.userId = s.userId) ∨ st = .set s' ∧ s'.id = id := by
    intro h
    cases st with
    | clock | get | scan => exact .inl ⟨s', h, rfl⟩
    | del => exact .inl ⟨s', lookup_of_lookup_erase h, rfl⟩
    | set s =>
      change (set s.id (.record s) db).lookup id = _ at h
      by_cases hid : id = s.id
      · subst hid
        rw [lookup_set_self] at h
        obtain rfl := Stored.record.inj (Option.some.inj h)
        exact .inr ⟨rfl, rfl⟩
      · rw [lookup_set_ne hid] at h
        exact .inl ⟨s', h, rfl⟩
    | validateAndTouch k =>
      change (touchScript k c.now db).2.lookup id = _ at h
      unfold touchScript at h
      split at h
      · exact .inl ⟨s', h, rfl⟩
      · exact .inl ⟨s', lookup_of_lookup_erase h, rfl⟩
      next s hs =>
      split at h
      · exact .inl ⟨s', lookup_of_lookup_erase h, rfl⟩
      split at h
      · exact .inl ⟨s', lookup_of_lookup_erase h, rfl⟩
      by_cases hid : id = k
      · subst hid
        rw [lookup_set_self] at h
        obtain rfl := Stored.record.inj (Option.some.inj h)
        exact .inl ⟨s, hs, rfl⟩
      · rw [lookup_set_ne hid] at h
        exact .inl ⟨s', h, rfl⟩
  obtain ⟨t, fate⟩ := c
  cases fate with
  | refused =>
    cases st with
    | _ => exact .inl ⟨s', h, rfl⟩
  | answered | lost =>
    have h : (st.eval t db).2.lookup id = some (.record s') := by
      cases st <;> exact h
    exact (heval h).imp_right fun hset => ⟨hset.1, hset.2, by simp⟩

theorem not_alive_del (h : ((Statement.del id).run c db).1 = .done) : ¬ Alive id ((Statement.del id).run c db).2 := by
  obtain ⟨t, fate⟩ := c
  cases fate with
  | answered =>
    rintro ⟨s, hs⟩
    exact absurd (lookup_erase_self.symm.trans hs) (by simp)
  | lost | refused => cases h

theorem get_reply_cases (id : String) (c : Choice) (db : Sessions) :
    ((Statement.get id).run c db).1 = .failed ∨ ((Statement.get id).run c db).1 = .value (db.lookup id) := by
  obtain ⟨t, fate⟩ := c
  cases fate with
  | answered => exact .inr rfl
  | lost | refused => exact .inl rfl

theorem get_reply {v : Option Stored} (h : ((Statement.get id).run c db).1 = .value v) : v = db.lookup id := by
  rcases get_reply_cases id c db with hreply | hreply
  · cases hreply.symm.trans h
  · exact (Reply.value.inj (hreply.symm.trans h)).symm

/-! ## The calls -/

/-- What a call has done so far. -/
inductive Mode where
  | idle
  | creating (id : String)
  /-- It has read the session. -/
  | holding (session : AdminSession)
  | deleted (id : String)
  /-- It looks for sessions of the user, on these pages and among these keys. -/
  | sweeping (userId : String) (pages : List (String → Bool)) (ids : List String)
  | removing (userId : String) (pages : List (String → Bool)) (ids : List String) (id : String)

/-- The statement that a scan makes next. -/
def nextOfSweep : List (String → Bool) → List String → Statement → Prop
  | _, id :: _, st => st = .get id
  | page :: _, [], st => st = .scan page
  | [], [], _ => False

def afterSweep (userId : String) : List (String → Bool) → List String → Reply → Mode
  | pages, id :: ids, .value (some (.record s)) =>
    if s.userId = userId then .removing userId pages ids id else .sweeping userId pages ids
  | pages, _ :: ids, .value _ => .sweeping userId pages ids
  | _ :: pages, [], .keys ids => .sweeping userId pages ids
  | pages, ids, _ => .sweeping userId pages ids

/-- Only a session that was read is written, and a scan comes to everything. -/
def discipline : Discipline Mode Statement Reply where
  allows m st :=
    match m with
    | .idle | .deleted _ => (∀ s, st ≠ .set s)
    | .creating id => ∀ s, st = .set s → s.id = id
    | .holding s => ∀ s', st = .set s' → s'.id = s.id ∧ s'.userId = s.userId
    | .sweeping _ pages ids => nextOfSweep pages ids st
    | .removing _ _ _ id => st = .del id
  after m st r :=
    match m with
    | .idle =>
      match st, r with
      | .get id, .value (some (.record s)) => if s.id = id then .holding s else .idle
      | .del id, .done => .deleted id
      | _, _ => .idle
    | .sweeping userId pages ids => afterSweep userId pages ids r
    | .removing userId pages ids id =>
      match r with
      | .done => .sweeping userId pages ids
      | _ => .removing userId pages ids id
    | m => m

/-- What the mode of a call is when it has returned. -/
def Finished (m : Mode) : Except SessionError Outcome → Prop
  | .ok (.loggedOut id) => m = .deleted id
  | .ok (.revoked userId) => m = .sweeping userId [] []
  | _ => True

/-- The mode that a call starts in. -/
def Call.mode : Call → Mode
  | .exchange _ id _ => .creating id
  | .revoke userId scan => .sweeping userId scan.pages []
  | _ => .idle

theorem now_follows {m : Mode} (hallows : discipline.allows m .clock)
    (hafter : ∀ r, discipline.after m .clock r = m) : now.Follows discipline (fun m' _ => m' = m) m := by
  refine follows_perform hallows fun r => ?_
  rw [hafter r]
  split <;> rfl

theorem now_follows_idle : now.Follows discipline (fun m' _ => m' = .idle) .idle :=
  now_follows (by rintro s ⟨⟩) fun _ => rfl

theorem validateAndTouch_follows (id : String) (t : Int) :
    (validateAndTouch id t).Follows discipline (fun m _ => m = .idle) .idle := by
  unfold validateAndTouch
  split
  · rfl
  split
  · rfl
  refine follows_perform (by rintro s ⟨⟩) fun r => ?_
  split <;> rfl

theorem get_follows (id : String) : (get id).Follows discipline (fun m r => ∀ s, r = .ok s → m = .holding s) .idle := by
  have hfail : ∀ m (e : SessionError),
    (pure (.error e) : SessionM (Except SessionError AdminSession)).Follows discipline
      (fun m r => ∀ s, r = .ok s → m = .holding s) m := by
    intro m e
    refine follows_pure ?_
    rintro s ⟨⟩
  have hdel : ∀ m, discipline.allows m (.del id) → (perform (.del id) >>= fun r => match r with
      | .done => pure (.error .corruptRecord)
      | _ => pure (.error .unavailable) : SessionM (Except SessionError AdminSession)).Follows discipline
        (fun m r => ∀ s, r = .ok s → m = .holding s) m := by
    intro m hallows
    refine follows_perform hallows fun r => ?_
    split <;> exact hfail _ _
  unfold get
  split
  · exact hfail _ _
  refine follows_perform (by rintro s ⟨⟩) fun r => ?_
  split
  · exact hfail _ _
  next stored =>
    cases stored with
    | garbage => exact hdel _ (by rintro s ⟨⟩)
    | record s =>
      change Follows discipline _ (if s.id = id then .holding s else .idle) _
      by_cases hdecodes : s.decodes id = true
      · have hid : s.id = id := by
          simp only [AdminSession.decodes, AdminSession.isFor, Bool.and_eq_true, decide_eq_true_eq] at hdecodes
          exact hdecodes.1.1.1.1.1.1.1.1.1
        simp only [hdecodes, if_true, if_pos hid]
        refine follows_pure ?_
        rintro _ ⟨⟩
        rfl
      · simp only [hdecodes]
        refine hdel _ ?_
        split <;> rintro s ⟨⟩
  · exact hfail _ _

theorem put_follows {m : Mode} {s : AdminSession} (hclock : discipline.allows m .clock)
    (hafter : ∀ r, discipline.after m .clock r = m) (hset : discipline.allows m (.set s)) :
    (put s).Follows discipline (fun _ _ => True) m := by
  unfold put
  split
  · trivial
  split
  · trivial
  refine (now_follows hclock hafter).bind fun m' t hm => ?_
  subst hm
  split
  · trivial
  refine follows_perform hset fun r => ?_
  split <;> trivial

theorem delete_follows (id : String) :
    (delete id).Follows discipline (fun m r => (r = .ok () → m = .deleted id) ∧ r ≠ .error .notFound) .idle := by
  unfold delete
  split
  · exact follows_pure ⟨by rintro ⟨⟩, by simp⟩
  refine follows_perform (by rintro s ⟨⟩) fun r => ?_
  split
  · exact follows_pure ⟨fun _ => rfl, by simp⟩
  · exact follows_pure ⟨by rintro ⟨⟩, by simp⟩

theorem authenticate_follows (id : String) (csrfToken : List UInt8) (mutate : Bool) :
    (authenticate H id csrfToken mutate).Follows discipline (fun m _ => m = .idle) .idle := by
  unfold authenticate
  split
  · rfl
  refine now_follows_idle.bind fun m t hm => ?_
  subst hm
  refine (validateAndTouch_follows id t).bind fun m r hm => ?_
  subst hm
  split
  · rfl
  split
  · rfl
  split
  · rfl
  · split <;> rfl

theorem refresh_follows (id : String) (csrfToken : List UInt8) :
    (refresh H id csrfToken).Follows discipline (fun _ _ => True) .idle := by
  refine (authenticate_follows H id [] false).bind fun m r hm => ?_
  subst hm
  split
  · trivial
  refine (get_follows id).bind fun m r hr => ?_
  split
  · trivial
  next s =>
  obtain rfl := hr s rfl
  refine (now_follows (by rintro s' ⟨⟩) fun _ => rfl).bind fun m t hm => ?_
  subst hm
  refine (put_follows (by rintro s' ⟨⟩) (fun _ => rfl) ?_).bind fun m r _ => ?_
  · rintro s' ⟨⟩
    exact ⟨rfl, rfl⟩
  · split <;> trivial

theorem logout_follows (id : String) :
    (logout id).Follows discipline (fun m r => r = .ok () → m = .deleted id) .idle := by
  unfold logout
  split
  · rintro ⟨⟩
  refine (delete_follows id).bind fun m r hr => ?_
  split
  next e =>
    refine follows_pure ?_
    rw [if_neg fun he => hr.2 (by rw [he])]
    rintro ⟨⟩
  · exact follows_pure fun _ => hr.1 rfl

theorem revokeKeys_follows (userId : String) (pages : List (String → Bool)) (ids : List String) :
    (revokeKeys userId ids).Follows discipline (fun m r => r = .ok () → m = .sweeping userId pages [])
      (.sweeping userId pages ids) := by
  induction ids with
  | nil => exact follows_pure fun _ => rfl
  | cons id ids ih =>
    refine follows_perform rfl fun r => ?_
    split
    next s =>
      change Follows discipline _ (if s.userId = userId then .removing userId pages ids id
        else .sweeping userId pages ids) _
      split
      · refine follows_perform rfl fun r => ?_
        split
        · exact ih
        · rintro ⟨⟩
      · exact ih
    next v hv =>
      have hafter : discipline.after (.sweeping userId pages (id :: ids)) (.get id) (.value v) =
          .sweeping userId pages ids := by
        cases v with
        | none => rfl
        | some v =>
          cases v with
          | garbage => rfl
          | record s => exact absurd rfl (hv s)
      rw [hafter]
      exact ih
    · rintro ⟨⟩

theorem revokePages_follows (userId : String) (pages : List (String → Bool)) :
    (revokePages userId pages).Follows discipline (fun m r => r = .ok () → m = .sweeping userId [] [])
      (.sweeping userId pages []) := by
  induction pages with
  | nil => exact follows_pure fun _ => rfl
  | cons page pages ih =>
    refine follows_perform rfl fun r => ?_
    split
    next ids =>
      refine (revokeKeys_follows userId pages ids).bind fun m r hr => ?_
      split
      · rw [hr rfl]
        exact ih
      · rintro ⟨⟩
    · rintro ⟨⟩

/-- **Every call keeps to the discipline**, and what it returns tells its mode. -/
theorem Call.follows (call : Call) : (call.program H).Follows discipline Finished call.mode := by
  cases call with
  | exchange user id csrfToken =>
    have hexchange : (Admin.exchange H user id csrfToken).Follows discipline (fun _ _ => True) (.creating id) := by
      unfold Admin.exchange
      split
      · trivial
      split
      · trivial
      refine (now_follows (by rintro s ⟨⟩) fun _ => rfl).bind fun m t hm => ?_
      subst hm
      refine (put_follows (by rintro s ⟨⟩) (fun _ => rfl) ?_).bind fun m r _ => ?_
      · rintro s ⟨⟩
        rfl
      · split <;> trivial
    refine hexchange.bind fun m r _ => follows_pure ?_
    cases r <;> trivial
  | authenticate id csrfToken mutate =>
    refine (authenticate_follows H id csrfToken mutate).bind fun m r _ => follows_pure ?_
    cases r <;> trivial
  | refresh id csrfToken =>
    refine (refresh_follows H id csrfToken).bind fun m r _ => follows_pure ?_
    cases r <;> trivial
  | logout id =>
    refine (logout_follows id).bind fun m r hr => follows_pure ?_
    cases r with
    | error => trivial
    | ok => exact hr rfl
  | revoke userId scan =>
    have hrevoke : (revokeAdminUserSessions userId scan).Follows discipline
        (fun m r => r = .ok () → m = .sweeping userId [] []) (.sweeping userId scan.pages []) := by
      unfold revokeAdminUserSessions
      split
      · rintro ⟨⟩
      · exact revokePages_follows userId scan.pages
    refine hrevoke.bind fun m r hr => follows_pure ?_
    cases r with
    | error => trivial
    | ok => exact hr rfl

/-! ## The invariant -/

section Invariant

variable (id user : String)

/-- As far as the mode goes, the record of the session may be there. -/
def Mode.spares : Mode → Prop
  | .deleted id' => id' ≠ id
  | .sweeping userId pages ids => userId = user → (∃ page ∈ pages, page id = true) ∨ id ∈ ids
  | .removing userId pages ids id' => userId = user → (∃ page ∈ pages, page id = true) ∨ id ∈ ids ∨ id' = id
  | _ => True

/-- What is written under the id is a session of the user. -/
def Mode.keepsUser : Mode → Prop
  | .creating id' => id' ≠ id
  | .holding s => s.id = id → s.userId = user
  | _ => True

structure Settled (db : Sessions) (modes : List (Call × Mode)) : Prop where
  owner : ∀ s, db.lookup id = some (.record s) → s.userId = user
  keeps : ∀ x ∈ modes, x.2.keepsUser id user
  spares : Alive id db → ∀ x ∈ modes, x.2.spares id user

/-- The step finds the record that it writes. -/
def FindsRecord (db : Sessions) : Input → Prop
  | .statement (.set s) c => s.id = id → c.fate ≠ .refused → Alive id db
  | _ => True

instance (db : Sessions) : ∀ i, Decidable (FindsRecord id db i)
  | .statement (.set s) c => inferInstanceAs (Decidable (s.id = id → c.fate ≠ .refused → Alive id db))
  | .statement .clock _ | .statement (.validateAndTouch _) _ | .statement (.get _) _ | .statement (.del _) _
  | .statement (.scan _) _ | .event _ => inferInstanceAs (Decidable True)

variable {id user} {db : Sessions} {modes : List (Call × Mode)} {n : Nat} {call : Call} {m : Mode}
  {st : Statement} {c : Choice}

theorem alive_of_alive_run (hfinds : FindsRecord id db (.statement st c)) (h : Alive id (st.run c db).2) :
    Alive id db := by
  obtain ⟨s', hs'⟩ := h
  rcases alive_run hs' with ⟨s, hs, -⟩ | ⟨rfl, hid, hfate⟩
  · exact ⟨s, hs⟩
  · exact hfinds hid hfate

theorem Mode.user_of_allows_set {s : AdminSession} (hkeeps : m.keepsUser id user)
    (hallows : discipline.allows m (.set s))
    (hid : s.id = id) : s.userId = user := by
  cases m with
  | idle | deleted => exact absurd rfl (hallows s)
  | creating => exact absurd ((hallows s rfl).symm.trans hid) hkeeps
  | holding =>
    obtain ⟨hsame, huser⟩ := hallows s rfl
    exact huser.trans (hkeeps (hsame.symm.trans hid))
  | removing => cases hallows
  | sweeping userId pages ids =>
    cases ids with
    | cons => cases hallows
    | nil =>
      cases pages with
      | nil | cons => cases hallows

theorem Mode.keepsUser_after (howner : ∀ s, db.lookup id = some (.record s) → s.userId = user)
    (hkeeps : m.keepsUser id user) : (discipline.after m st (st.run c db).1).keepsUser id user := by
  cases m with
  | creating | holding | deleted => exact hkeeps
  | removing =>
    simp only [discipline]
    split <;> trivial
  | sweeping userId pages ids =>
    change (afterSweep userId pages ids (st.run c db).1).keepsUser id user
    unfold afterSweep
    split
    · split <;> trivial
    all_goals trivial
  | idle =>
    simp only [discipline]
    split
    next s hreply =>
      split
      next hid =>
        intro hsame
        have hlookup := get_reply hreply
        rw [← hid, hsame] at hlookup
        exact howner s hlookup.symm
      next => trivial
    · trivial
    · trivial

theorem Mode.spares_after (howner : ∀ s, db.lookup id = some (.record s) → s.userId = user)
    (hallows : discipline.allows m st) (halive : Alive id db) (halive' : Alive id (st.run c db).2)
    (hspares : m.spares id user) : (discipline.after m st (st.run c db).1).spares id user := by
  obtain ⟨record, hrecord⟩ := halive
  cases m with
  | creating | holding | deleted => exact hspares
  | idle =>
    simp only [discipline]
    split
    · split <;> trivial
    next hreply =>
      rintro rfl
      exact not_alive_del hreply halive'
    · trivial
  | removing userId pages ids id' =>
    obtain rfl : st = .del id' := hallows
    simp only [discipline]
    split
    next hreply =>
      intro huser
      rcases hspares huser with hpage | hmem | rfl
      · exact .inl hpage
      · exact .inr hmem
      · exact absurd halive' (not_alive_del hreply)
    · exact hspares
  | sweeping userId pages ids =>
    cases ids with
    | cons id' ids =>
      obtain rfl : st = .get id' := hallows
      change (afterSweep userId pages (id' :: ids) _).spares id user
      -- the reply is what is stored, unless there is none
      rcases get_reply_cases id' c db with hreply | hreply
      · rw [hreply]
        exact hspares
      · rw [hreply]
        by_cases hid : id' = id
        · subst hid
          rw [hrecord]
          change (if record.userId = userId then Mode.removing userId pages ids id'
            else .sweeping userId pages ids).spares _ _
          split
          · exact fun _ => .inr (.inr rfl)
          next hother => exact fun huser => absurd ((howner record hrecord).trans huser.symm) hother
        · have hrest : userId = user → (∃ page ∈ pages, page id = true) ∨ id ∈ ids := fun huser =>
            (hspares huser).imp_right fun hmem => (mem_cons.mp hmem).resolve_left (Ne.symm hid)
          cases db.lookup id' with
          | none => exact hrest
          | some v =>
            cases v with
            | garbage => exact hrest
            | record s =>
              change (if s.userId = userId then Mode.removing userId pages ids id'
                else .sweeping userId pages ids).spares _ _
              split
              · exact fun huser => (hrest huser).imp_right .inl
              · exact hrest
    | nil =>
      cases pages with
      | nil => cases hallows
      | cons page pages =>
        obtain rfl : st = .scan page := hallows
        change (afterSweep userId (page :: pages) [] _).spares id user
        obtain ⟨t, fate⟩ := c
        cases fate with
        | lost | refused => exact hspares
        | answered =>
          intro huser
          obtain ⟨page', hpage', hin⟩ := (hspares huser).resolve_right (by simp)
          rcases mem_cons.mp hpage' with rfl | hpage'
          · exact .inr (mem_filter.mpr ⟨mem_keys_of_lookup hrecord, hin⟩)
          · exact .inl ⟨page', hpage', hin⟩

theorem Settled.step (h : Settled id user db modes) (hn : modes[n]? = some (call, m)) (hallows : discipline.allows m st)
    (hfinds : FindsRecord id db (.statement st c)) :
    Settled id user (st.run c db).2 (modes.set n (call, discipline.after m st (st.run c db).1)) := by
  have hm : (call, m) ∈ modes := mem_of_getElem? hn
  refine ⟨fun s' hs' => ?_, fun x hx => ?_, fun halive' x hx => ?_⟩
  · rcases alive_run hs' with ⟨s, hs, huser⟩ | ⟨rfl, hid, -⟩
    · exact huser.trans (h.owner s hs)
    · exact Mode.user_of_allows_set (h.keeps _ hm) hallows hid
  · rcases mem_or_eq_of_mem_set hx with hx | rfl
    · exact h.keeps x hx
    · exact Mode.keepsUser_after h.owner (h.keeps _ hm)
  · have halive := alive_of_alive_run hfinds halive'
    rcases mem_or_eq_of_mem_set hx with hx | rfl
    · exact h.spares halive x hx
    · exact Mode.spares_after h.owner hallows halive halive' (h.spares halive _ hm)

theorem Settled.expire (h : Settled id user db modes) (id' : String) : Settled id user (erase id' db) modes :=
  ⟨fun s hs => h.owner s (lookup_of_lookup_erase hs), h.keeps, fun ⟨s, hs⟩ => h.spares ⟨s, lookup_of_lookup_erase hs⟩⟩

theorem Settled.start (h : Settled id user db modes) (hfresh : call.creates ≠ some id) :
    Settled id user db (modes ++ [(call, call.mode)]) := by
  have hkeeps : call.mode.keepsUser id user := by
    cases call with
    | exchange => exact fun hid => hfresh (hid ▸ rfl)
    | _ => trivial
  have hspares : call.mode.spares id user := by
    cases call with
    | revoke userId scan => exact fun _ => .inl (scan.covers id)
    | _ => trivial
  exact ⟨h.owner, forall_mem_append.mpr ⟨h.keeps, forall_mem_singleton.mpr hkeeps⟩,
    fun halive => forall_mem_append.mpr ⟨h.spares halive, forall_mem_singleton.mpr hspares⟩⟩

variable (H : Auth.Hashes) (ts : List (Turn Call Event Choice))
  (howner : ∀ s, db.lookup id = some (.record s) → s.userId = user)
  (hfresh : ∀ call, Turn.start call ∈ ts → call.creates ≠ some id)
  (hfinds : redis.Steps (fun db i _ => FindsRecord id db i) db (sessionInputs H db ts))

include howner hfresh hfinds

/-- **The invariant holds in every run whose writes find their records.** -/
theorem settled_run : ∃ modes, Follow discipline Finished (sessionsAfter H db ts).calls modes ∧
      Settled id user (sessionsAfter H db ts).shared modes := by
  have hrun : ∃ modes, Follow discipline Finished (sessionsAfter H db ts).calls modes ∧
      modes.map Prod.fst = ([] : List (Call × Mode)).map Prod.fst ++ ts.filterMap Turn.started ∧
      Settled id user (sessionsAfter H db ts).shared modes := by
    refine Pool.follows_run ts (fun db modes call hmem h => h.start (hfresh call hmem))
      (fun db modes n call m st c hn hallows hfind h => h.step hn hallows hfind) (fun db modes e _ h => ?_)
      (fun call _ => call.follows H) .nil hfinds ⟨howner, by rintro x ⟨⟩, by rintro - x ⟨⟩⟩
    cases e with
    | expire id' => exact h.expire id'
  obtain ⟨modes, hfollow, -, hsettled⟩ := hrun
  exact ⟨modes, hfollow, hsettled⟩

/-- **A session that is logged out, or whose user is revoked, is gone.** -/
theorem not_alive_of_revoked
    (hrevoked : ∃ (n : Nat) (call : Call) (outcome : Outcome), (outcome = .loggedOut id ∨ outcome = .revoked user) ∧
      (sessionsAfter H db ts).calls[n]? = some (call, .done (.ok outcome))) :
    ¬ Alive id (sessionsAfter H db ts).shared := by
  obtain ⟨modes, hfollow, hsettled⟩ := settled_run H ts howner hfresh hfinds
  obtain ⟨n, call, outcome, houtcome, hcall⟩ := hrevoked
  obtain ⟨m, hm, hfinished⟩ := hfollow.mode_of_call hcall
  intro halive
  have hspares := hsettled.spares halive _ (mem_of_getElem? hm)
  rcases houtcome with rfl | rfl
  · obtain rfl : m = .deleted id := hfinished
    exact hspares rfl
  · obtain rfl : m = .sweeping user [] [] := hfinished
    simp [Mode.spares] at hspares

end Invariant

/-! ## Later calls -/

/-- The session is found. -/
def Finds (id : String) (st : Statement) (r : Reply) : Prop := st = .validateAndTouch id ∧ ∃ s, r = .touched s

/-- `Authenticate` lets nobody in unless the session is found. -/
theorem authenticate_unless (id : String) (csrfToken : List UInt8) (mutate : Bool) :
    (authenticate H id csrfToken mutate).Unless (Finds id) (fun r => ∀ p, r ≠ .ok p) := by
  have hnow : now.Unless (Finds id) fun _ => True := unless_of_forall (fun _ => trivial) _
  have hvalidate : ∀ t, (validateAndTouch id t).Unless (Finds id) (fun r => ∀ s, r ≠ .ok s) := by
    intro t
    unfold validateAndTouch
    split
    · exact unless_pure (by rintro s ⟨⟩)
    split
    · exact unless_pure (by rintro s ⟨⟩)
    refine unless_perform fun r => ?_
    split
    next s => exact .inl ⟨rfl, s, rfl⟩
    all_goals exact .inr (unless_pure (by rintro s ⟨⟩))
  unfold authenticate
  split
  · exact unless_pure (by rintro p ⟨⟩)
  refine hnow.bind fun t _ => (hvalidate t).bind fun r hr => ?_
  split
  · exact unless_pure (by rintro p ⟨⟩)
  next s => exact absurd rfl (hr s)

/-- A call of `Authenticate` for the session has let nobody in. -/
def Refuses (id : String) (call : Call) (result : Except SessionError Outcome) : Prop :=
  ∀ csrfToken mutate, call = .authenticate id csrfToken mutate → ∀ p, result ≠ .ok (.authenticated p)

theorem Call.unless_finds (id : String) (call : Call) : (call.program H).Unless (Finds id) (Refuses id call) := by
  by_cases hcall : ∃ csrfToken mutate, call = .authenticate id csrfToken mutate
  · obtain ⟨csrfToken, mutate, rfl⟩ := hcall
    refine (authenticate_unless H id csrfToken mutate).bind fun r hr => unless_pure fun _ _ _ p => ?_
    cases r with
    | error => simp [Except.map]
    | ok p' => exact absurd rfl (hr p')
  · exact unless_of_forall (fun _ csrfToken mutate heq => absurd ⟨csrfToken, mutate, heq⟩ hcall) _

theorem not_touched_of_not_alive (h : ¬ Alive id db) (s : AdminSession) :
    ((Statement.validateAndTouch id).run c db).1 ≠ .touched s := by
  obtain ⟨t, fate⟩ := c
  cases fate with
  | lost | refused => simp [Statement.run]
  | answered =>
    change (touchScript id t db).1 ≠ _
    unfold touchScript
    split
    · simp
    · simp
    next s' hs' => exact absurd ⟨s', hs'⟩ h

/-- **A session that is gone stays gone**, and nobody finds it. -/
theorem not_finds_of_gone {is : List Input} (hgone : ¬ Alive id db)
    (hfinds : redis.Steps (fun db i _ => FindsRecord id db i) db is) :
    redis.Steps (fun db i _ => ∀ st c, i = .statement st c → ¬ Finds id st (redis.out db i)) db is := by
  refine hfinds.imp_of_kept (I := fun db => ¬ Alive id db) hgone fun db i _ hgone hfind => ?_
  cases i with
  | statement =>
    refine ⟨fun halive => hgone (alive_of_alive_run hfind halive), fun st' c' heq => ?_⟩
    cases heq
    rintro ⟨rfl, s, hs⟩
    exact not_touched_of_not_alive hgone s hs
  | event e =>
    cases e with
    | expire =>
      exact ⟨fun ⟨s, hs⟩ => hgone ⟨s, lookup_of_lookup_erase hs⟩, by rintro st c ⟨⟩⟩

/-! ## Revoked sessions -/

/-- A session that has just been created. -/
def sampleSession : AdminSession :=
  { id := "s", userId := "u", email := "u@example.com", role := "admin", csrfHash := [48],
    issuedAt := minute, lastSeenAt := minute, idleExpiresAt := minute + idleTtl, expiresAt := minute + absoluteTtl }

def sampleSessions : Sessions := [("s", .record sampleSession)]

/-- A scan with one page. -/
def sampleScan : Scan := ⟨[fun _ => true], fun _ => ⟨_, mem_singleton_self _, rfl⟩⟩

/-- The turns of one call, two minutes after the session was created. -/
def turnsOf (n count : Nat) : List (Turn Call Event Choice) := List.replicate count (.step n ⟨2 * minute, .answered⟩)

/-- A user is revoked while one of their sessions is refreshed, after the new token has been stored. -/
def sampleBefore : List (Turn Call Event Choice) :=
  [.start (.refresh "s" [1]), .start (.revoke "u" sampleScan)] ++ turnsOf 0 6 ++ turnsOf 1 3

def sampleLater : List (Turn Call Event Choice) := .start (.authenticate "s" [] false) :: turnsOf 2 2

end RelayHub.Admin
