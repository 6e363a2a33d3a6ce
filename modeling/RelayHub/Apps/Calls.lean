import RelayHub.Apps.Effects

/-! # RelayHub applications — calls between transactions

`duty` is the discipline of the calls: which transaction a call may perform, with what it has read, and that it
performs one at most. -/

namespace RelayHub.Apps

open Program Transactions

inductive Phase where
  /-- Nothing has been performed; the application that was read last. -/
  | «open» (seen : Option App)
  | performed (result : Option App)
  /-- The answer of the transaction did not arrive. -/
  | unknown

structure Progress where
  call : Call
  phase : Phase

/-- The application that a call creates. -/
def CreateApp.app (input : CreateApp) (appId : String) (t : Int) : App :=
  ⟨appId, Text.trimSpace input.name, input.callbackUrl, input.deliveryMode, true, t, t⟩

/-- The transactions of a call, with the application that it has read. -/
inductive Permits (E : Env) : Call → Option App → Action → Prop where
  | create {input : CreateApp} {appId apiKey secret : String} {seen : Option App} (t : Int)
      (valid : (input.app appId t).validates E) : Permits E (.create input appId apiKey secret) seen
        (.create (input.app appId t) (E.hashAPIKey apiKey) secret)
  | update {appId : String} {input : UpdateApp} {seen : App} (t : Int) (valid : (input.patch seen).validates E) :
      Permits E (.update appId input) (some seen) (.update seen { input.patch seen with updatedAt := t })
  | disable {appId : String} {seen : Option App} (t : Int) : Permits E (.disable appId) seen (.disable appId t)
  | rotate {appId apiKey secret : String} {seen : Option App} (t : Int) :
      Permits E (.rotateSecret appId apiKey secret) seen (.rotate appId (E.hashAPIKey apiKey) secret t)

def duty (E : Env) : Discipline Progress (Request Op Inquiry Rows TxResult) (Answer Rows TxResult Int) where
  allows p
    | .transaction body => ∃ seen a, p.phase = .open seen ∧ body = a.body ∧ Permits E p.call seen a
    | .query i => ∀ appId input, p.call = .update appId input → i = .getApplication appId
    | .ask => True
  after p request answer :=
    match request, answer, p.phase with
    | .query (.getApplication _), .reply (some (.app (some app))), .open _ => ⟨p.call, .open (some app)⟩
    | .transaction _, .result (some (.ok result)), _ => ⟨p.call, .performed result⟩
    | .transaction _, .result none, _ => ⟨p.call, .unknown⟩
    | _, _, _ => p

/-- A call that changes something returns what its transaction has returned. -/
def Delivered (p : Progress) : Except AppError Outcome → Prop
  | .ok (.updated app) | .ok (.disabled app) => p.phase = .performed (some app)
  | .ok (.created _) | .ok .rotated => ∃ result, p.phase = .performed result
  | _ => True

section Follows

variable {E : Env}

theorem transaction_follows {p : Progress} {a : Action} {seen : Option App} (hphase : p.phase = .open seen)
    (hpermits : Permits E p.call seen a) : (transaction a.body).Follows (duty E) (fun p' r =>
      (∀ result, r = .ok result → p' = ⟨p.call, .performed result⟩) ∧ (r = .error .conflict → p' = p)) p := by
  refine follows_perform ⟨seen, a, hphase, rfl, hpermits⟩ fun answer => ?_
  split
  next result =>
    refine follows_pure ⟨fun result' heq => ?_, by rintro ⟨⟩⟩
    cases heq
    rfl
  next e => exact follows_pure ⟨by rintro result ⟨⟩, fun _ => rfl⟩
  next => exact follows_pure ⟨by rintro result ⟨⟩, by rintro ⟨⟩⟩

theorem now_follows (p : Progress) : now.Follows (duty E) (fun p' _ => p' = p) p := by
  refine follows_perform trivial fun answer => ?_
  split <;> rfl

theorem create_follows (input : CreateApp) (appId apiKey secret : String) :
    (create E input appId apiKey secret).Follows (duty E)
      (fun p r => ∀ app, r = .ok app → ∃ result, p.phase = .performed result)
      ⟨.create input appId apiKey secret, .open none⟩ := by
  unfold create
  dsimp only
  split
  · rintro app ⟨⟩
  next hvalid =>
  refine (now_follows _).bind fun p t hp => ?_
  subst hp
  have hvalid : (input.app appId t).validates E := by simpa [App.validates, CreateApp.app] using hvalid
  refine (transaction_follows (a := .create (input.app appId t) (E.hashAPIKey apiKey) secret) rfl
    (.create t hvalid)).bind
    fun p r hr => ?_
  split
  · rintro app ⟨⟩
  next result => exact follows_pure fun _ _ => ⟨result, by rw [hr.1 result rfl]⟩

/-- An attempt of `Update`, and those after it. -/
theorem updateLoop_follows (appId : String) (input : UpdateApp) (attempts : Nat) (seen : Option App) :
    (updateLoop E appId input attempts).Follows (duty E)
      (fun p r => ∀ app, r = .ok app → p.phase = .performed (some app))
      ⟨.update appId input, .open seen⟩ := by
  induction attempts generalizing seen with
  | zero => rintro app ⟨⟩
  | succ attempts ih =>
    have hget : (get appId).Follows (duty E)
      (fun p r => ∀ app, r = .ok app → p = ⟨.update appId input, .open (some app)⟩)
        ⟨.update appId input, .open seen⟩ := by
      refine follows_perform (fun id' input' heq => ?_) fun answer => ?_
      · cases heq
        rfl
      · split
        next app => exact follows_pure fun _ heq => by rw [← Except.ok.inj heq]; rfl
        all_goals rintro app ⟨⟩
    refine hget.bind fun p r hr => ?_
    split
    · rintro app ⟨⟩
    next expected =>
    obtain rfl := hr expected rfl
    dsimp only
    split
    · rintro app ⟨⟩
    next hvalid =>
    refine (now_follows _).bind fun p t hp => ?_
    subst hp
    have hvalid : (input.patch expected).validates E := by simpa using hvalid
    rw [compareAndSwapApplication, if_neg (by simp [UpdateApp.patch])]
    refine (transaction_follows (a := .update expected { input.patch expected with updatedAt := t }) rfl
      (.update t hvalid)).bind
      fun p r hr => ?_
    split
    · rw [hr.2 rfl]
      exact ih _
    · rintro app ⟨⟩
    next updated => exact follows_pure fun _ heq => by rw [hr.1 _ rfl, ← Except.ok.inj heq]
    · rintro app ⟨⟩

theorem disable_follows (appId : String) : (disable appId).Follows (duty E)
    (fun p r => ∀ app, r = .ok app → p.phase = .performed (some app)) ⟨.disable appId, .open none⟩ := by
  refine (now_follows _).bind fun p t hp => ?_
  subst hp
  refine (transaction_follows (a := .disable appId t) rfl (.disable t)).bind fun p r hr => ?_
  split
  · rintro app ⟨⟩
  next app => exact follows_pure fun _ heq => by rw [hr.1 _ rfl, ← Except.ok.inj heq]
  · rintro app ⟨⟩

theorem rotateSecret_follows (appId apiKey secret : String) : (rotateSecret E appId apiKey secret).Follows (duty E)
    (fun p r => ∀ x, r = .ok x → ∃ result, p.phase = .performed result)
    ⟨.rotateSecret appId apiKey secret, .open none⟩ := by
  refine (now_follows _).bind fun p t hp => ?_
  subst hp
  refine (transaction_follows (a := .rotate appId (E.hashAPIKey apiKey) secret t) rfl (.rotate t)).bind fun p r hr => ?_
  split
  · rintro x ⟨⟩
  next result => exact follows_pure fun _ _ => ⟨result, by rw [hr.1 result rfl]⟩

theorem after_call (p : Progress) (request : Request Op Inquiry Rows TxResult) (answer : Answer Rows TxResult Int) :
    ((duty E).after p request answer).call = p.call := by
  simp only [duty]
  split <;> rfl

theorem after_query (p : Progress) (i : Inquiry) (answer : Answer Rows TxResult Int) :
    (duty E).after p (.query i) answer = p ∨ ∃ id app seen, i = .getApplication id ∧
      answer = .reply (some (.app (some app))) ∧ p.phase = .open seen ∧
      (duty E).after p (.query i) answer = ⟨p.call, .open (some app)⟩ := by
  simp only [duty]
  split
  next id app seen heq hphase => exact .inr ⟨id, app, seen, Request.query.inj heq, rfl, hphase, rfl⟩
  next heq => cases heq
  next heq => cases heq
  · exact .inl rfl

theorem authenticate_follows (apiKey : String) (p : Progress) (hcall : p.call = .authenticateAPIKey apiKey) :
    (authenticateAPIKey E apiKey).Follows (duty E) (fun _ _ => True) p := by
  have hquery : ∀ (p : Progress) i, p.call = .authenticateAPIKey apiKey → (duty E).allows p (.query i) := by
    intro p i hcall appId input heq
    rw [hcall] at heq
    cases heq
  unfold authenticateAPIKey
  split
  · trivial
  refine follows_perform (hquery p _ hcall) fun answer => ?_
  split
  · have hget : ∀ (p : Progress) appId, p.call = .authenticateAPIKey apiKey →
        (get appId).Follows (duty E) (fun _ _ => True) p := by
      intro p appId hcall
      refine follows_perform (hquery p _ hcall) fun answer => ?_
      split <;> trivial
    refine (hget _ _ ((after_call _ _ _).trans hcall)).bind fun p r _ => ?_
    split
    · trivial
    · split <;> trivial
  · trivial

/-- **Every call does its duty.** -/
theorem Call.follows (call : Call) : (call.program E).Follows (duty E) Delivered ⟨call, .open none⟩ := by
  cases call with
  | create input appId apiKey secret =>
    refine (create_follows input appId apiKey secret).bind fun p r hr => follows_pure ?_
    cases r with
    | error => trivial
    | ok app => exact hr app rfl
  | update appId input =>
    have hupdate : (Apps.update E appId input).Follows (duty E)
        (fun p r => ∀ app, r = .ok app → p.phase = .performed (some app)) ⟨.update appId input, .open none⟩ := by
      unfold Apps.update
      split
      · rintro app ⟨⟩
      · exact updateLoop_follows appId input 16 none
    refine hupdate.bind fun p r hr => follows_pure ?_
    cases r with
    | error => trivial
    | ok app => exact hr app rfl
  | disable appId =>
    refine (disable_follows appId).bind fun p r hr => follows_pure ?_
    cases r with
    | error => trivial
    | ok app => exact hr app rfl
  | rotateSecret appId apiKey secret =>
    refine (rotateSecret_follows appId apiKey secret).bind fun p r hr => follows_pure ?_
    cases r with
    | error => trivial
    | ok x => exact hr x rfl
  | authenticateAPIKey apiKey =>
    refine (authenticate_follows apiKey ⟨.authenticateAPIKey apiKey, .open none⟩ rfl).bind fun p r _ => follows_pure ?_
    cases r <;> trivial

theorem Call.safe (call : Call) : Safe tables (call.program E) := by
  refine safe_of_follows (fun p body hallows => ?_) call.follows
  obtain ⟨-, a, -, rfl, -⟩ := hallows
  exact a.guarded

end Follows

end RelayHub.Apps
