import RelayHub.Apps.Service

/-! # RelayHub applications — what transactions do

One lemma for each transaction says everything it does to applications, credentials and keys when it is performed in
one step: it fails and changes nothing, or it is `Performed`. -/

namespace RelayHub.Apps

open List Program Transactions Function

/-! ## Transactions of the service -/

/-- A transaction with its values. -/
inductive Action where
  | create (app : App) (apiKeyHash hmacSecret : String)
  | update (expected app : App)
  | disable (id : String) (updatedAt : Int)
  | rotate (id apiKeyHash hmacSecret : String) (updatedAt : Int)

def Action.body : Action → TxM (Decision TxResult)
  | .create app h secret => createApplication app h secret
  | .update expected app => updateApplication expected app
  | .disable id t => disableApplication id t
  | .rotate id h secret t => rotateApplicationCredential id h secret t

/-- What changes: the row of one application, its credentials, and at most one key, which becomes its. -/
structure Sets (id : String) (row : App) (credentials : List Credential) (key : Option String) (data data' : Tables) :
    Prop where
  apps : ∀ i, data' (.app i) = if i = id then some row else data (.app i)
  credentials : ∀ i, data' (.credentials i) = if i = id then credentials else data (.credentials i)
  keys : ∀ k, data' (.key k) = if key = some k then some id else data (.key k)

/-- The row as `compareAndSet` leaves it. -/
def App.merge (row app : App) : App :=
  { row with
    name := app.name, callbackUrl := app.callbackUrl, deliveryMode := app.deliveryMode
    updatedAt := max row.updatedAt app.updatedAt }

def App.disable (row : App) (t : Int) : App := { row with enabled := false, updatedAt := max row.updatedAt t }

def App.touch (row : App) (t : Int) : App := { row with updatedAt := max row.updatedAt t }

def nextVersion (rows : List Credential) : Nat := (rows.map Credential.version).foldl max 0 + 1

/-- What a transaction does that commits, and what it returns. -/
inductive Performed (data data' : Tables) : Action → Option App → Prop where
  | create {app : App} {h secret : String} (fresh : data (.app app.id) = none) (free : data (.key h) = none)
      (sets : Sets app.id app
        (data (.credentials app.id) ++ [⟨h, secret, app.createdAt, app.createdAt, 1, none⟩]) (some h) data data') :
      Performed data data' (.create app h secret) none
  | update {expected app row : App} (found : data (.app app.id) = some row) (same : row.sameConfiguration expected)
      (sets : Sets app.id (row.merge app) (data (.credentials app.id)) none data data') :
      Performed data data' (.update expected app) (some (row.merge app))
  | disable {id : String} {t : Int} {row : App} (found : data (.app id) = some row)
      (sets : Sets id (row.disable t) (data (.credentials id)) none data data') :
      Performed data data' (.disable id t) (some (row.disable t))
  | rotate {id h secret : String} {t created : Int} {row : App} (found : data (.app id) = some row)
      (free : data (.key h) = none)
      (sets : Sets id (row.touch t) ((data (.credentials id)).map (Credential.revoke t) ++
        [⟨h, secret, created, t, nextVersion (data (.credentials id)), none⟩]) (some h) data data') :
      Performed data data' (.rotate id h secret t) none

/-- A transaction fails without effect, or is performed. -/
def Effect (a : Action) (data : Tables) : Prop :=
  (∃ e, tables.atomically a.body data = (.error e, data)) ∨
    ∃ o data', tables.atomically a.body data = (.ok o, data') ∧ Performed data data' a o

variable {data : Tables} {id : String} {row : App} {credentials : List Credential} {key : Option String}

theorem effect_of_abort {a : Action} {e : StoreError} {data' : Tables}
    (h : tables.run a.body data = (.abort (.error e), data')) : Effect a data :=
  .inl ⟨e, atomically_of_abort h⟩

theorem effect_of_commit {a : Action} {o : Option App} {data' : Tables}
    (h : tables.run a.body data = (.commit (.ok o), data')) (hperformed : Performed data data' a o) : Effect a data :=
  .inr ⟨o, data', atomically_of_commit h, hperformed⟩

theorem Sets.of_endpoint
    {data' : Tables} (h : Sets id row credentials key data data') {o : Op} {i : String} (ho : o.region = .endpoint i) :
    Sets id row credentials key data (tables.apply o data').2 := by
  have hrest : ∀ r, r ≠ .endpoint i → (tables.apply o data').2 r = data' r := fun r hr =>
    apply_of_ne tables (by rw [show tables.region o = o.region from rfl, ho]; exact hr) data'
  refine ⟨fun j => ?_, fun j => ?_, fun k => ?_⟩
  · rw [hrest _ (by simp), h.apps]
  · rw [hrest _ (by simp), h.credentials]
  · rw [hrest _ (by simp), h.keys]

section Sets

variable {data' : Tables}

theorem sets_update_row (h : ∀ i, i ≠ id → data' (.app i) = data (.app i))
    (hcredentials : ∀ i, data' (.credentials i) = if i = id then credentials else data (.credentials i))
    (hkeys : ∀ k, data' (.key k) = if key = some k then some id else data (.key k)) (row : App) :
    Sets id row credentials key data (Function.update data' (.app id) (some row)) := by
  refine ⟨fun i => ?_, fun i => ?_, fun k => ?_⟩
  · split
    next hi =>
      subst hi
      exact update_self ..
    next hi => rw [update_of_ne (by simpa using hi), h i hi]
  · rw [update_of_ne (by simp), hcredentials]
  · rw [update_of_ne (by simp), hkeys]

theorem sets_row (row : App) : Sets id row (data (.credentials id)) none data
    (Function.update data (.app id) (some row)) := by
  refine sets_update_row (fun _ _ => rfl) (fun i => ?_) (fun k => (if_neg (by simp)).symm) row
  split
  next hi => rw [hi]
  next hi => rfl

theorem sets_nothing (hrow : data (.app id) = some row) : Sets id row (data (.credentials id)) none data data := by
  have hset : Sets id row (data (.credentials id)) none data (Function.update data (.app id) (some row)) := sets_row row
  rwa [← hrow, update_eq_self] at hset

theorem Sets.setCredentials (h : Sets id row credentials key data data') (credentials' : List Credential) :
    Sets id row credentials' key data (Function.update data' (.credentials id) credentials') := by
  refine ⟨fun i => ?_, fun i => ?_, fun k => ?_⟩
  · rw [update_of_ne (by simp), h.apps]
  · split
    next hi =>
      subst hi
      exact update_self ..
    next hi => rw [update_of_ne (by simpa using hi), h.credentials, if_neg hi]
  · rw [update_of_ne (by simp), h.keys]

theorem Sets.setKey (h : Sets id row credentials none data data') (k : String) :
    Sets id row credentials (some k) data (Function.update data' (.key k) (some id)) := by
  refine ⟨fun i => ?_, fun i => ?_, fun k' => ?_⟩
  · rw [update_of_ne (by simp), h.apps]
  · rw [update_of_ne (by simp), h.credentials]
  · by_cases hk : k' = k
    · subst hk
      rw [if_pos rfl]
      exact update_self ..
    · rw [update_of_ne (by simpa using hk), h.keys, if_neg (by simp), if_neg (by simpa using Ne.symm hk)]

theorem Sets.setEndpoint (h : Sets id row credentials key data data') {i : String} {e : Option Endpoint} :
    Sets id row credentials key data (Function.update data' (.endpoint i) e) := by
  refine ⟨fun j => ?_, fun j => ?_, fun k => ?_⟩
  · rw [update_of_ne (by simp), h.apps]
  · rw [update_of_ne (by simp), h.credentials]
  · rw [update_of_ne (by simp), h.keys]

end Sets

/-! ## Statements -/

section Statements

variable {o : Op} {v : o.region.Value} {r : Rows} (h : data o.region = v)
include h

theorem reads (hexec : o.exec v = (r, none)) (f : Rows → TxM (Decision TxResult)) :
    tables.run (perform o >>= f) data = tables.run (f r) data :=
  run_read h hexec f

theorem writes {v' : o.region.Value} (hexec : o.exec v = (r, some v')) (f : Rows → TxM (Decision TxResult)) :
    tables.run (perform o >>= f) data = tables.run (f r) (Function.update data o.region v') :=
  run_write h hexec f

end Statements

/-! ## Disabling and updating -/

theorem effect_disable (id : String) (t : Int) : Effect (.disable id t) data := by
  cases hrow : data (.app id) with
  | none => exact effect_of_abort (reads (o := .disableApplication id t) hrow rfl _)
  | some =>
    have hrun := writes (o := .disableApplication id t) hrow rfl
    exact effect_of_commit (hrun _) (.disable hrow ((sets_row _).of_endpoint rfl))

theorem effect_update (expected app : App) : Effect (.update expected app) data := by
  have hfail : ∀ {found : Option App}, data (.app app.id) = found →
      Op.exec (.compareAndSet app expected) found = (.app none, none) → Effect (.update expected app) data := by
    intro found hfound hexec
    have hset : tables.run (updateApplication expected app) data = _ :=
      reads hfound hexec _
    have hexists := reads (o := .applicationExists app.id) hfound rfl
    cases found with
    | none | some => exact effect_of_abort (hset.trans (hexists _))
  cases hrow : data (.app app.id) with
  | none => exact hfail hrow rfl
  | some row =>
    by_cases hsame : row.sameConfiguration expected
    · have hregion : (syncCallback app.id (row.merge app)).region = .endpoint app.id := by
        unfold syncCallback
        split <;> rfl
      have hset := writes (o := .compareAndSet app expected) hrow (if_pos hsame)
      exact effect_of_commit (hset _) (.update hrow hsame ((sets_row _).of_endpoint hregion))
    · exact hfail hrow (if_neg hsame)

/-! ## Creating and rotating -/

variable {data' : Tables}

/-- An index entry is refused, or the key was free. -/
theorem insertKey_cases (data : Tables) (h appId : String) (f : Rows → TxM (Decision TxResult)) :
    tables.run (perform (.insertKey h appId) >>= f) data = tables.run (f .uniqueViolation) data ∨
      data (.key h) = none ∧ tables.run (perform (.insertKey h appId) >>= f) data =
        tables.run (f .done) (Function.update data (.key h) (some appId)) := by
  cases hkey : data (.key h) with
  | some => exact .inl (reads hkey rfl f)
  | none => exact .inr ⟨rfl, writes hkey rfl f⟩

theorem insertRow_cases (c : Credential) (rows : List Credential) :
    insertRow c rows = (.uniqueViolation, none) ∨ insertRow c rows = (.done, some (rows ++ [c])) := by
  unfold insertRow
  split
  · exact .inl rfl
  · exact .inr rfl

theorem run_createEndpoint {app : App} (hsets : Sets id row credentials key data data') :
    (∃ e data'', tables.run (createEndpoint app) data' = (.abort (.error e), data'')) ∨
      ∃ data'', tables.run (createEndpoint app) data' = (.commit (.ok none), data'') ∧
        Sets id row credentials key data data'' := by
  unfold createEndpoint
  cases app.callbackUrl with
  | none => exact .inr ⟨data', rfl, hsets⟩
  | some url =>
    let o : Op := .insertEndpoint app.id ⟨url, app.enabled, app.createdAt, app.updatedAt⟩
    cases hendpoint : data' (.endpoint app.id) with
    | some => exact .inl ⟨.conflict, data', reads (o := o) hendpoint rfl _⟩
    | none => exact .inr ⟨_, writes (o := o) hendpoint rfl _, hsets.setEndpoint⟩

theorem effect_create (app : App) (h secret : String) : Effect (.create app h secret) data := by
  cases hrow : data (.app app.id) with
  | some => exact effect_of_abort (reads (o := .insertApplication app) hrow rfl _)
  | none =>
  have hstart : tables.run (createApplication app h secret) data = tables.run (createCredential app h secret)
      (Function.update data (.app app.id) (some app)) := writes (o := .insertApplication app) hrow rfl _
  have hsets : Sets app.id app _ none data _ := sets_row app
  generalize Function.update data (.app app.id) (some app) = data₁ at hstart hsets
  have hkeys : data₁ (.key h) = data (.key h) := by rw [hsets.keys, if_neg (by simp)]
  rcases insertKey_cases data₁ h app.id _ with hkey | ⟨hfree, hkey⟩
  · exact effect_of_abort (hstart.trans hkey)
  replace hsets := hsets.setKey h
  generalize Function.update data₁ (.key h) (some app.id) = data₂ at hkey hsets
  have hrows : data₂ (.credentials app.id) = data (.credentials app.id) := by rw [hsets.credentials, if_pos rfl]
  let c : Credential := ⟨h, secret, app.createdAt, app.createdAt, 1, none⟩
  rcases insertRow_cases c (data (.credentials app.id)) with hrow' | hrow'
  · exact effect_of_abort (hstart.trans (hkey.trans (reads (o := .insertCredential app.id c) hrows hrow' _)))
  have hend : tables.run (createApplication app h secret) data = tables.run (createEndpoint app)
      (Function.update data₂ (.credentials app.id) (data (.credentials app.id) ++ [c])) :=
    hstart.trans (hkey.trans (writes (o := .insertCredential app.id c) hrows hrow' _))
  rcases run_createEndpoint (hsets.setCredentials _) with ⟨e, data₃, hrun⟩ | ⟨data₃, hrun, hsets⟩
  · exact effect_of_abort (hend.trans hrun)
  · exact effect_of_commit (hend.trans hrun) (.create hrow (hkeys ▸ hfree) hsets)

theorem run_rotateInto {h secret : String} {t : Int} {version : Nat} {rows : List Credential}
    (hsets : Sets id row rows none data data') (hrows : rows ≠ []) :
    (∃ e data'', tables.run (rotateInto id h secret t version) data' = (.abort (.error e), data'')) ∨
      data (.key h) = none ∧ ∃ created data'', tables.run (rotateInto id h secret t version) data' =
        (.commit (.ok none), data'') ∧
        Sets id (row.touch t) (rows ++ [⟨h, secret, created, t, version, none⟩]) (some h) data data'' := by
  have hkeys : data' (.key h) = data (.key h) := by rw [hsets.keys, if_neg (by simp)]
  rcases insertKey_cases data' h id _ with hkey | ⟨hfree, hkey⟩
  · exact .inl ⟨.conflict, data', hkey⟩
  replace hsets := hsets.setKey h
  generalize Function.update data' (.key h) (some id) = data₁ at hkey hsets
  have hrows₁ : data₁ (.credentials id) = rows := by rw [hsets.credentials, if_pos rfl]
  -- the oldest credential is there
  obtain ⟨first, hfirst⟩ : ∃ first, rows.argmin Credential.version = some first := by
    rw [← Option.ne_none_iff_exists', ne_eq, argmin_eq_none]
    exact hrows
  let c : Credential := ⟨h, secret, first.createdAt, t, version, none⟩
  have hexec : Op.exec (.insertNextCredential id h secret t version) rows = insertRow c rows := by
    simp only [Op.exec, hfirst]
    rfl
  rcases insertRow_cases c rows with hrow | hrow
  · have hinsert := reads hrows₁ (hexec.trans hrow)
    exact .inl ⟨.conflict, data₁, hkey.trans (hinsert _)⟩
  · have hinsert := hkey.trans (writes hrows₁ (hexec.trans hrow) _)
    replace hsets := hsets.setCredentials (rows ++ [c])
    have hrow₂ := (hsets.apps id).trans (if_pos rfl)
    have htouch := writes (o := .touchApplication id t) hrow₂ rfl
    exact .inr ⟨hkeys ▸ hfree, first.createdAt, _, hinsert.trans (htouch _),
      sets_update_row (fun i hi => (hsets.apps i).trans (if_neg hi)) hsets.credentials hsets.keys (row.touch t)⟩

theorem effect_rotate (id h secret : String) (t : Int) : Effect (.rotate id h secret t) data := by
  cases hrow : data (.app id) with
  | none => exact effect_of_abort (reads (o := .lockApplication id) hrow rfl _)
  | some row =>
  generalize hrows : data (.credentials id) = rows
  have hlock := reads (o := .lockApplication id) hrow rfl
  have hversion := reads (o := .nextVersion id) hrows rfl
  have hrevoke := writes (o := .revokeCredentials id t) hrows rfl
  have hstart : tables.run (rotateApplicationCredential id h secret t) data = _ :=
    (hlock _).trans ((hversion _).trans (hrevoke _))
  have hsets : Sets id row _ none data _ := (sets_nothing hrow).setCredentials (rows.map (.revoke t))
  cases hcount : rows.countP fun c => c.revokedAt = none with
  | zero =>
    rw [hcount] at hstart
    exact effect_of_abort hstart
  | succ =>
    rw [hcount] at hstart
    have hne : rows.map (Credential.revoke t) ≠ [] := by
      intro hnil
      rw [map_eq_nil_iff] at hnil
      rw [hnil] at hcount
      cases hcount
    rcases run_rotateInto hsets hne with ⟨e, data₂, hrun⟩ | ⟨hfree, created, data₂, hrun, hsets⟩
    · exact effect_of_abort (hstart.trans hrun)
    · exact effect_of_commit (hstart.trans hrun) (.rotate hrow hfree (hrows ▸ hsets))

/-- **A transaction fails without effect, or is performed.** -/
theorem Action.effect (a : Action) (data : Tables) : Effect a data := by
  cases a with
  | create app h secret => exact effect_create app h secret
  | update expected app => exact effect_update expected app
  | disable id t => exact effect_disable id t
  | rotate id h secret t => exact effect_rotate id h secret t

/-! ## Locks -/

theorem guarded_create (app : App) (h secret : String) : Guarded tables [] (createApplication app h secret) := by
  refine guarded_perform mem_cons_self fun r => ?_
  split
  · trivial
  refine guarded_perform mem_cons_self fun r => ?_
  split
  · trivial
  refine guarded_perform (mem_cons_of_mem _ mem_cons_self) fun r => ?_
  split
  · trivial
  unfold createEndpoint
  split
  · trivial
  · refine guarded_perform (mem_cons_of_mem _ mem_cons_self) fun r => ?_
    cases r <;> trivial

theorem guarded_update (expected app : App) : Guarded tables [] (updateApplication expected app) := by
  refine guarded_perform mem_cons_self fun r => ?_
  split
  next updated =>
    refine guarded_perform ?_ fun r => trivial
    unfold syncCallback
    split <;> exact mem_cons_self
  · refine guarded_perform mem_cons_self fun r => ?_
    split <;> trivial

theorem guarded_disable (id : String) (t : Int) : Guarded tables [] (disableApplication id t) := by
  refine guarded_perform mem_cons_self fun r => ?_
  split
  · exact guarded_perform mem_cons_self fun r => trivial
  · trivial

theorem guarded_rotate (id h secret : String) (t : Int) :
    Guarded tables [] (rotateApplicationCredential id h secret t) := by
  refine guarded_perform mem_cons_self fun r => ?_
  split
  swap
  · trivial
  refine guarded_perform mem_cons_self fun r => ?_
  split
  swap
  · trivial
  refine guarded_perform mem_cons_self fun r => ?_
  split
  swap
  · trivial
  refine guarded_perform mem_cons_self fun r => ?_
  split
  · trivial
  refine guarded_perform (mem_cons_of_mem _ mem_cons_self) fun r => ?_
  split
  · trivial
  exact guarded_perform mem_cons_self fun r => trivial

/-- **Every transaction works under the lock of its application.** -/
theorem Action.guarded (a : Action) : Guarded tables [] a.body := by
  cases a with
  | create app h secret => exact guarded_create app h secret
  | update expected app => exact guarded_update expected app
  | disable id t => exact guarded_disable id t
  | rotate id h secret t => exact guarded_rotate id h secret t

end RelayHub.Apps
