/-
Who creates the first user (`apps/web/src/app/api/auth/[...all]/route.ts`,
`packages/auth/src/auth.ts`, `apps/web/src/app/actions.ts`).

Set-ups and requests to the auth handler interleave at every statement, while tokens are issued and
time passes.

* `handler` — what a request can do to the users: a sign-up counts them in its hook and creates one
  in a later statement;
* `Entry`, `step` — the system, with a record of the users created and of who created them;
* `OnlyByToken` — every user was created by a request that had consumed a token, and there is at most
  one;
* `Orderly` — what it takes: who finds no user has consumed a token, and nobody else has found none
  and is still under way (`onlyByToken_of_reach`).
-/
import HoodMint.FirstAdmin
import HoodMint.Lib.Interleave
import HoodMint.Lib.Transition

namespace FirstAdmin

open Effect Relational

/-! ### Entry points -/

/-- A request to the auth handler: to sign up, or one that creates no user. -/
inductive Request
  | signUpEmail (email name password : String)
  | other

/-- `ALL`. -/
def handler : Request → Web Unit
  | .signUpEmail email name password => do
    let _ ← signUpEmail email name password
  | .other => pure ()

/-- Where a user may come from. -/
inductive Entry
  | setup (input : SetupInput)
  | request (r : Request)

def Entry.prog (fingerprint : String → String) : Entry → Web Unit
  | .setup input => do
    let _ ← setupAction fingerprint input
  | .request r => handler r

/-! ### The system -/

/-- Whether a request has consumed a token, and whether it has found no user and may create one. -/
structure Here where
  consumed : Bool
  counted : Bool
deriving DecidableEq

/-- A user is created by who has found none. -/
def hooks : Monitor signature Thrown Here where
  guard here c :=
    match c with
    | .createUser .. => here.counted = true
    | _ => True
  allowed _ _ _ := True
  next here c x :=
    match c, x with
    | .consumeBootstrapToken _, .ok consumed => { here with consumed := here.consumed || consumed }
    | .countUsers, .ok n => { here with counted := decide (n = 0) }
    | .createUser .., _ => { here with counted := false }
    | _, _ => here

/-- The tables, the requests under way, and, of each user created, whether a token had been consumed
for it. -/
structure SignUps where
  db : AuthDb
  tasks : List (Task signature Thrown Unit Here)
  created : List Bool

/-- What can happen. -/
inductive SignUpStep
  | enter (entry : Entry)
  | advance (i : ℕ) (answer : (c : Cmd) → Except Thrown c.Resp)
  | crash (i : ℕ)
  | issueToken (tokenHash : String) (expiresAt : ℤ)
  | wait (now : ℤ)

namespace SignUps

/-- The users created after a statement. -/
def createdAfter (d : SignUps) (here : Here) (c : Cmd) (x : Except Thrown c.Resp) : List Bool :=
  match c, x with
  | .createUser .., .ok _ => here.consumed :: d.created
  | _, _ => d.created

/-- One step. -/
def step (fingerprint : String → String) (d : SignUps) : SignUpStep → Option SignUps
  | .enter entry =>
    some { d with tasks := d.tasks ++ [⟨entry.prog fingerprint, ⟨false, false⟩⟩] }
  | .advance i answer =>
    match d.tasks[i]? with
    | some ⟨.call c k, here⟩ =>
      if d.db.Answers c (answer c) then
        some
          { db := d.db.next c (answer c)
            tasks := d.tasks.set i ⟨k (answer c), hooks.next here c (answer c)⟩
            created := d.createdAfter here c (answer c) }
      else none
    | _ => none
  | .crash i => d.tasks[i]?.map fun t => { d with tasks := d.tasks.set i ⟨.ret (), t.here⟩ }
  | .issueToken tokenHash expiresAt =>
    some { d with db := { d.db with tokens := d.db.tokens.insert ⟨tokenHash, expiresAt, none⟩ } }
  | .wait now => some { d with db := { d.db with now := now } }

/-- No user, any tokens, and no request under way. -/
def init (db : AuthDb) : SignUps := ⟨{ db with users := .empty }, [], []⟩

end SignUps

/-- **Only a token opens the first account.** -/
structure OnlyByToken (d : SignUps) : Prop where
  byToken : ∀ consumed ∈ d.created, consumed = true
  one : d.db.users.rows.length ≤ 1

/-! ### What it takes -/

/-- The request has found no user and is still under way. -/
def Passing (t : Task signature Thrown Unit Here) : Prop := ¬ t.Done ∧ t.here.counted = true

instance : DecidablePred Passing := fun t =>
  (inferInstance : Decidable (¬ t.Done ∧ t.here.counted = true))

/-- Who finds no user has consumed a token, and nobody else has found none and is under way. -/
def Heard (d : SignUps) (here : Here) (c : Cmd) (x : Except Thrown c.Resp) : Prop :=
  match c, x with
  | .countUsers, .ok _ => d.db.users.rows = [] →
    here.consumed = true ∧ ∀ t ∈ d.tasks, ¬ Passing t
  | _, _ => True

instance (d : SignUps) (here : Here) (c : Cmd) (x : Except Thrown c.Resp) :
    Decidable (Heard d here c x) := by
  induction c using Cmd.casesOn with
  | countUsers =>
    induction x using Except.casesOn with
    | error e => exact isTrue trivial
    | ok a => exact (inferInstance : Decidable (d.db.users.rows = [] →
        here.consumed = true ∧ ∀ t ∈ d.tasks, ¬ Passing t))
  | _ => exact isTrue trivial

/-- The condition on a step, in the state before it. -/
def Orderly (d : SignUps) : SignUpStep → Prop
  | .advance i answer => AtCommand (S := signature) d.tasks i answer (Heard d)
  | _ => True

instance (d : SignUps) : DecidablePred (Orderly d) := fun l =>
  match l with
  | .advance i answer =>
    (inferInstance : Decidable (AtCommand (S := signature) d.tasks i answer (Heard d)))
  | .enter _ | .crash _ | .issueToken .. | .wait _ => isTrue trivial

/-! ### One request -/

section

variable {fingerprint : String → String} {here : Here} {input : SetupInput}

theorem signUpEmail_wp (email name password : String) :
    (signUpEmail email name password).wp hooks (fun _ _ => True) here := by
  refine Prog.wp_bind_of (R := fun r here' => r.toOption.isSome → here'.counted = true) ?_ ?_
    fun _ _ _ => trivial
  · refine Prog.wp_issue_bind trivial (fun existing _ => ?_) fun _ _ h => by cases h
    refine Prog.wp_ite (fun _ h => by cases h) fun hnone _ => ?_
    exact decide_eq_true (Nat.eq_zero_of_not_pos hnone)
  · intro _ here' hcounted
    exact Prog.wp_issue.mpr ⟨hcounted rfl, fun _ _ => trivial⟩

/-- A set-up signs up like any request. -/
theorem setupAction_hooks :
    (setupAction fingerprint input).wp hooks (fun _ _ => True) here := by
  refine Prog.wp_tryCatch_of (R := fun _ _ => True) ?_ (fun _ _ _ => trivial) fun _ _ _ => trivial
  refine Prog.wp_ite (fun _ => trivial) fun _ => ?_
  refine Prog.wp_issue_bind trivial (fun consumed _ => ?_) fun _ _ => trivial
  refine Prog.wp_ite (fun _ => ?_) fun _ => trivial
  refine Prog.wp_bind_of (signUpEmail_wp _ _ _) (fun id here' _ => ?_) fun _ _ _ => trivial
  refine Prog.wp_issue_bind trivial (fun _ _ => ?_) fun _ _ => trivial
  refine Prog.wp_issue_bind trivial (fun _ _ => ?_) fun _ _ => trivial
  exact Prog.wp_issue_bind trivial (fun _ _ => trivial) fun _ _ => trivial

/-- **Whoever enters**, a user is created by who has found none. -/
theorem entry_wp (entry : Entry) :
    (entry.prog fingerprint).wp hooks (fun _ _ => True) here := by
  cases entry with
  | setup input =>
    exact Prog.wp_bind_of setupAction_hooks (fun _ _ _ => trivial) fun _ _ _ => trivial
  | request r =>
    cases r with
    | signUpEmail email name password =>
      exact Prog.wp_bind_of (signUpEmail_wp email name password) (fun _ _ _ => trivial)
        fun _ _ _ => trivial
    | other => trivial

end

/-! ### One step -/

section

variable {fingerprint : String → String} {d d' : SignUps}

/-- A statement of a request. -/
theorem step_advance_cases {i : ℕ} {answer : (c : Cmd) → Except Thrown c.Resp}
    (h : d.step fingerprint (.advance i answer) = some d') :
    ∃ c k here, d.tasks[i]? = some ⟨.call c k, here⟩ ∧ d.db.Answers c (answer c) ∧
      d' =
        { db := d.db.next c (answer c)
          tasks := d.tasks.set i ⟨k (answer c), hooks.next here c (answer c)⟩
          created := d.createdAfter here c (answer c) } := by
  simp only [SignUps.step] at h
  split at h
  · next c k here hi =>
    split at h
    · next hx => exact ⟨c, k, here, hi, hx, (Option.some_inj.mp h).symm⟩
    · exact absurd h.symm (Option.some_ne_none d')
  · exact absurd h.symm (Option.some_ne_none d')

/-- The requests keep to the hook; who has found no user has consumed a token, there is none, and
nobody else has found none. -/
structure Sound (d : SignUps) : Prop where
  safe : ∀ t ∈ d.tasks, t.Safe hooks fun _ _ => True
  byToken : ∀ consumed ∈ d.created, consumed = true
  one : d.db.users.rows.length ≤ 1
  passing : ∀ t ∈ d.tasks, Passing t → t.here.consumed = true ∧ d.db.users.rows = []
  alone : ∀ (i j : ℕ) t u, d.tasks[i]? = some t → d.tasks[j]? = some u → Passing t → Passing u → i = j

/-- A statement after which its request passes only if it did before. -/
theorem sound_quiet (hs : Sound d) {i : ℕ} {t t' : Task signature Thrown Unit Here} {db : AuthDb}
    (hi : d.tasks[i]? = some t) (hsafe : ∀ t ∈ d.tasks.set i t', t.Safe hooks fun _ _ => True)
    (husers : db.users.rows.length ≤ 1)
    (hempty : d.db.users.rows = [] → db.users.rows = [])
    (hpassing : Passing t' → Passing t ∧ (t.here.consumed = true → t'.here.consumed = true)) :
    Sound { db := db, tasks := d.tasks.set i t', created := d.created } := by
  refine ⟨hsafe, hs.byToken, husers, fun u hu hpass => ?_, fun j l u v hj hl hu hv => ?_⟩
  · rcases List.mem_or_eq_of_mem_set hu with hu | rfl
    · exact (hs.passing u hu hpass).imp_right hempty
    · obtain ⟨hold, hconsumed⟩ := hpassing hpass
      exact (hs.passing t (List.mem_of_getElem? hi) hold).imp hconsumed hempty
  · -- each of the two was there before, or is the request itself
    have hbefore : ∀ {n : ℕ} {w}, (d.tasks.set i t')[n]? = some w → Passing w →
        ∃ w₀, d.tasks[n]? = some w₀ ∧ Passing w₀ := by
      intro n w hn hw
      rcases getElem?_set_cases hn with ⟨rfl, rfl⟩ | ⟨_, hn⟩
      · exact ⟨t, hi, (hpassing hw).1⟩
      · exact ⟨w, hn, hw⟩
    obtain ⟨u₀, hj, hu⟩ := hbefore hj hu
    obtain ⟨v₀, hl, hv⟩ := hbefore hl hv
    exact hs.alone j l u₀ v₀ hj hl hu hv

/-- One statement of a request that meets the condition. -/
theorem sound_advance (hs : Sound d) {i : ℕ} {c : Cmd} {k : Except Thrown c.Resp → Web Unit}
    {here : Here} {x : Except Thrown c.Resp} (hi : d.tasks[i]? = some ⟨.call c k, here⟩)
    (hx : d.db.Answers c x) (hφ : Heard d here c x) :
    Sound
      { db := d.db.next c x
        tasks := d.tasks.set i ⟨k x, hooks.next here c x⟩
        created := d.createdAfter here c x } := by
  obtain ⟨hguard, hsafe⟩ := safe_advance hi hs.safe (x := x) trivial
  have hmem := List.mem_of_getElem? hi
  have hrunning : ¬ (⟨.call c k, here⟩ : Task signature Thrown Unit Here).Done := fun h => h
  cases c with
  | consumeBootstrapToken tokenHash =>
    cases x with
    | error e => exact sound_quiet hs hi hsafe hs.one id fun hp => ⟨⟨hrunning, hp.2⟩, id⟩
    | ok consumed =>
      refine sound_quiet hs hi hsafe hs.one id fun hp => ⟨⟨hrunning, hp.2⟩, fun hconsumed => ?_⟩
      show (here.consumed || consumed) = true
      have hconsumed : here.consumed = true := hconsumed
      rw [hconsumed, Bool.true_or]
  | countUsers =>
    cases x with
    | error e => exact sound_quiet hs hi hsafe hs.one id fun hp => ⟨⟨hrunning, hp.2⟩, id⟩
    | ok n =>
      have hn : n = d.db.users.rows.length := hx
      by_cases hempty : d.db.users.rows = []
      · -- the request has consumed a token, and is the only one to have found no user
        obtain ⟨hconsumed, hnone⟩ := hφ hempty
        refine ⟨hsafe, hs.byToken, hs.one, fun t ht hp => ?_, fun j l t u hj hl ht hu => ?_⟩
        · rcases List.mem_or_eq_of_mem_set ht with ht | rfl
          · exact absurd hp (hnone t ht)
          · exact ⟨hconsumed, hempty⟩
        · have hself : ∀ {m : ℕ} {w}, (d.tasks.set i ⟨k (.ok n),
              hooks.next here .countUsers (.ok n)⟩)[m]? = some w → Passing w → m = i := by
            intro m w hm hw
            rcases getElem?_set_cases hm with ⟨hm, _⟩ | ⟨_, hm⟩
            · exact hm
            · exact absurd hw (hnone w (List.mem_of_getElem? hm))
          exact (hself hj ht).trans (hself hl hu).symm
      · have hcount : n ≠ 0 := fun h => hempty (List.length_eq_zero_iff.mp (hn.symm.trans h))
        refine sound_quiet hs hi hsafe hs.one id fun hp => ?_
        exact absurd (of_decide_eq_true hp.2) hcount
  | createUser email name password =>
    have hpass : Passing (⟨.call (.createUser email name password) k, here⟩ :
        Task signature Thrown Unit Here) := ⟨hrunning, hguard⟩
    obtain ⟨hconsumed, hempty⟩ := hs.passing _ hmem hpass
    cases x with
    | error e => exact sound_quiet hs hi hsafe hs.one id fun hp => Bool.noConfusion hp.2
    | ok id =>
      -- nobody else has found no user
      have hnone : ∀ t ∈ d.tasks.set i ⟨k (.ok id),
          hooks.next here (.createUser email name password) (.ok id)⟩, ¬ Passing t := by
        intro t ht hp
        obtain ⟨j, hj⟩ := List.mem_iff_getElem?.mp ht
        rcases getElem?_set_cases hj with ⟨_, rfl⟩ | ⟨hne, hj⟩
        · exact Bool.noConfusion hp.2
        · exact hne (hs.alone j i t _ hj hi hp hpass)
      have hrows : (d.db.create id email).users.rows = [⟨id, Text.lower email, .viewer⟩] := by
        have hnew : ∀ u ∈ d.db.users, u.id ≠ id := fun u hu => (hx u hu).1
        rw [AuthDb.create, Table.insert_rows hnew, hempty]
      refine ⟨hsafe, fun consumed hc => ?_, hrows ▸ le_rfl, fun t ht hp => ?_,
        fun j l t u hj hl ht hu => ?_⟩
      · rcases List.mem_cons.mp hc with rfl | hc
        · exact hconsumed
        · exact hs.byToken consumed hc
      · exact absurd hp (hnone t ht)
      · exact absurd ht (hnone t (List.mem_of_getElem? hj))
  | promote email =>
    have hlength : (d.db.promote email).users.rows.length = d.db.users.rows.length := by
      rw [users_promote]
      exact List.length_map _
    cases x with
    | error e => exact sound_quiet hs hi hsafe hs.one id fun hp => ⟨⟨hrunning, hp.2⟩, id⟩
    | ok a =>
      refine sound_quiet hs hi hsafe (hlength.trans_le hs.one) (fun hempty => ?_) fun hp =>
        ⟨⟨hrunning, hp.2⟩, id⟩
      exact List.length_eq_zero_iff.mp (hlength.trans (List.length_eq_zero_iff.mpr hempty))
  | signInEmail email password =>
    exact sound_quiet hs hi hsafe hs.one id fun hp => ⟨⟨hrunning, hp.2⟩, id⟩
  | recordAudit targetId =>
    exact sound_quiet hs hi hsafe hs.one id fun hp => ⟨⟨hrunning, hp.2⟩, id⟩

/-- **Step.** -/
theorem sound_step (hs : Sound d) {l : SignUpStep} (hφ : Orderly d l)
    (h : d.step fingerprint l = some d') : Sound d' := by
  cases l with
  | enter entry =>
    obtain rfl := Option.some_inj.mp h
    have hnew : ∀ {j : ℕ} {t}, (d.tasks ++ [⟨entry.prog fingerprint, ⟨false, false⟩⟩])[j]? = some t →
        Passing t → d.tasks[j]? = some t := by
      intro j t hj hp
      rcases getElem?_append_cases hj with hj | rfl
      · exact hj
      · exact Bool.noConfusion hp.2
    refine ⟨fun t ht => ?_, hs.byToken, hs.one, fun t ht hp => ?_, fun i j t u hi hj ht hu => ?_⟩
    · exact of_mem_enter ht hs.safe (entry_wp entry)
    · obtain ⟨j, hj⟩ := List.mem_iff_getElem?.mp ht
      exact hs.passing t (List.mem_of_getElem? (hnew hj hp)) hp
    · exact hs.alone i j t u (hnew hi ht) (hnew hj hu) ht hu
  | advance i answer =>
    obtain ⟨c, k, here, hi, hx, rfl⟩ := step_advance_cases h
    have hheard : Heard d here c (answer c) := (atCommand_iff hi).mp hφ
    exact sound_advance hs hi hx hheard
  | crash i =>
    obtain ⟨t, ht, rfl⟩ := Option.map_eq_some_iff.mp h
    refine sound_quiet hs ht (fun u hu => ?_) hs.one id fun hp => absurd trivial hp.1
    rcases List.mem_or_eq_of_mem_set hu with hu | rfl
    · exact hs.safe u hu
    · trivial
  | issueToken tokenHash expiresAt =>
    obtain rfl := Option.some_inj.mp h
    exact ⟨hs.safe, hs.byToken, hs.one, hs.passing, hs.alone⟩
  | wait now =>
    obtain rfl := Option.some_inj.mp h
    exact ⟨hs.safe, hs.byToken, hs.one, hs.passing, hs.alone⟩

/-- **Run.**  In every run whose steps all meet the condition, only a token opens the first account,
and one account only. -/
theorem onlyByToken_of_reach {db : AuthDb}
    (h : Transition.Reach (SignUps.step fingerprint) Orderly (SignUps.init db) d) :
    OnlyByToken d := by
  have hs : Sound d := by
    refine h.invariant ⟨?_, ?_, Nat.zero_le _, ?_, ?_⟩ fun _ _ _ _ hs hφ hstep =>
      sound_step hs hφ hstep
    · intro t ht
      exact absurd ht List.not_mem_nil
    · intro consumed hc
      exact absurd hc List.not_mem_nil
    · intro t ht
      exact absurd ht List.not_mem_nil
    · intro i j t u hi
      exact absurd (List.mem_of_getElem? hi) List.not_mem_nil
  exact ⟨hs.byToken, hs.one⟩

end

/-! ### Samples -/

namespace Sample

/-- Everything is answered; users are counted and created so. -/
def answering (count : ℕ) (id : String) : (c : Cmd) → Except Thrown c.Resp
  | .consumeBootstrapToken _ => .ok true
  | .countUsers => .ok count
  | .createUser .. => .ok id
  | .promote _ => .ok ()
  | .signInEmail .. => .ok ()
  | .recordAudit _ => .ok ()

/-- A sign-up with no token. -/
def stranger (email : String) : Entry := .request (.signUpEmail email "Stranger" "correct horse")

end Sample

/-- The owner sets up with a token, and a stranger's sign-up is refused then. -/
theorem onlyByToken_of_reach_setup :
    ∃ d, Transition.Reach (SignUps.step id) Orderly (SignUps.init Sample.fresh) d ∧
      d.created = [true] ∧ d.tasks.length = 2 ∧ OnlyByToken d := by
  obtain ⟨d, hreach, hd⟩ := Transition.exists_reach_of_run (SignUps.step id) Orderly
    (SignUps.init Sample.fresh)
    [.enter (.setup Sample.input), .advance 0 (Sample.answering 0 "u1"),
      .advance 0 (Sample.answering 0 "u1"), .advance 0 (Sample.answering 0 "u1"),
      .enter (Sample.stranger "s@x"), .advance 1 (Sample.answering 1 "u2"),
      .advance 0 (Sample.answering 1 "u1")]
    (fun d => d.created = [true] ∧ d.tasks.length = 2) (by decide) (by decide)
  obtain ⟨hcreated, htasks⟩ := of_decide_eq_true hd
  exact ⟨d, hreach, hcreated, htasks, onlyByToken_of_reach hreach⟩

/-- A stranger signs up without a token, and two at once. -/
theorem stranger_signs_up :
    (∃ d, Transition.Reachable (SignUps.step id) (SignUps.init Sample.fresh) d ∧
      d.created = [false]) ∧
    (∃ d, Transition.Reachable (SignUps.step id) (SignUps.init Sample.fresh) d ∧
      d.db.users.rows.length = 2) ∧
    ¬ ∀ fingerprint db d, Transition.Reachable (SignUps.step fingerprint) (SignUps.init db) d →
      OnlyByToken d := by
  have hfirst : ∃ d, Transition.Reachable (SignUps.step id) (SignUps.init Sample.fresh) d ∧
      d.created = [false] := by
    obtain ⟨d, hreach, hd⟩ := Transition.exists_reachable_of_run (SignUps.step id)
      (SignUps.init Sample.fresh)
      [.enter (Sample.stranger "s@x"), .advance 0 (Sample.answering 0 "u1"),
        .advance 0 (Sample.answering 0 "u1")]
      (fun d => d.created = [false]) (by decide)
    exact ⟨d, hreach, of_decide_eq_true hd⟩
  refine ⟨hfirst, ?_, fun h => ?_⟩
  · obtain ⟨d, hreach, hd⟩ := Transition.exists_reachable_of_run (SignUps.step id)
      (SignUps.init Sample.fresh)
      [.enter (Sample.stranger "s@x"), .enter (Sample.stranger "t@x"),
        .advance 0 (Sample.answering 0 "u1"), .advance 1 (Sample.answering 0 "u2"),
        .advance 0 (Sample.answering 0 "u1"), .advance 1 (Sample.answering 0 "u2")]
      (fun d => d.db.users.rows.length = 2) (by decide)
    exact ⟨d, hreach, of_decide_eq_true hd⟩
  · obtain ⟨d, hreach, hd⟩ := hfirst
    have hby := (h id Sample.fresh d hreach).byToken
    rw [hd] at hby
    exact Bool.noConfusion (hby false List.mem_cons_self)

end FirstAdmin
