/-
The first administrator (`apps/web/src/app/actions.ts`, `packages/auth/src/auth.ts`,
`packages/db/src/repositories/ops.ts`).

* `signUpEmail` — Better Auth's sign-up: the hook counts the users, and the account is created by a
  later statement;
* `setupAction` — consume the token, sign up, promote, sign in;
* `authDb` — what the statements do to the users and the tokens; one that fails has not been
  executed;
* `Settled` — no user exists and the token is as usable as it was, or there is an administrator;
* `setupAction_settled` — a run is settled exactly when it has not consumed the token, or has
  promoted the user, or there was an administrator already; and all runs are exactly when the
  password is too short, the token is not usable, or there was one.
-/
import HoodMint.Lib.Effect
import HoodMint.Lib.Table
import HoodMint.Lib.Utf16
import Mathlib.Data.Int.Notation

namespace FirstAdmin

open Effect Relational Utf16

/-! ### Commands -/

/-- The statements of a sign-up, and what Better Auth does in between. -/
inductive Cmd
  | consumeBootstrapToken (tokenHash : String)
  | countUsers
  | createUser (email name password : String)
  | promote (email : String)
  | signInEmail (email password : String)
  | recordAudit (targetId : String)
deriving DecidableEq

/-- The answers: whether a token was consumed, how many users there are, and a new user's id. -/
abbrev Cmd.Resp : Cmd → Type
  | .consumeBootstrapToken _ => Bool
  | .countUsers => ℕ
  | .createUser .. => String
  | .promote _ | .signInEmail .. | .recordAudit _ => Unit

/-- What is thrown: an `AppError`, another error, or something else. -/
inductive Thrown
  | app (message : String)
  | error (message : String)
  | other

abbrev signature : Signature := ⟨Cmd, Cmd.Resp⟩

abbrev Web (α : Type) := Prog signature Thrown α

/-- Issue a command. -/
abbrev ask (c : Cmd) : Web c.Resp := Prog.issue (S := signature) c

/-! ### Signing up -/

/-- The hook before `/sign-up/email`. -/
def beforeSignUp : Web Unit := do
  let existing ← ask .countUsers
  if existing > 0 then
    throw (.error "Sign-up is disabled; ask an administrator to create accounts.")
  else pure ()

/-- Better Auth's sign-up. -/
def signUpEmail (email name password : String) : Web String := do
  beforeSignUp
  ask (.createUser email name password)

structure SetupInput where
  token : String
  email : String
  name : String
  password : String

/-- `ActionState`, or a redirect. -/
inductive Outcome
  | state (ok : Bool) (message : String)
  | redirect (path : String)
deriving DecidableEq

/-- The message of a failed set-up. -/
def Thrown.message : Thrown → String
  | .app message => message
  | .error message => "Setup failed: " ++ slice message 120
  | .other => "Setup failed: unknown error"

section

variable (fingerprint : String → String)

/-- What follows the token. -/
def createAdmin (input : SetupInput) : Web Outcome := do
  let _ ← signUpEmail input.email input.name input.password
  ask (.promote (Text.lower input.email))
  ask (.signInEmail input.email input.password)
  ask (.recordAudit (Text.lower input.email))
  return .redirect "/admin"

/-- `setupAction`. -/
def setupAction (input : SetupInput) : Web Outcome :=
  tryCatch
    (if (units input.password).length < 12 then
      pure (.state false "Password must be at least 12 characters.")
    else do
      let consumed ← ask (.consumeBootstrapToken (fingerprint input.token))
      if consumed then createAdmin input
      else
        pure (.state false
          "Bootstrap token invalid, expired, or already used. Run `make token` for a fresh one."))
    fun e => pure (.state false e.message)

end

/-! ### The tables -/

inductive Role
  | admin | operator | viewer
deriving DecidableEq

structure User where
  id : String
  email : String
  role : Role
deriving DecidableEq

structure BootstrapToken where
  tokenHash : String
  expiresAt : ℤ
  usedAt : Option ℤ
deriving DecidableEq

/-- The users, the tokens and the time. -/
structure AuthDb where
  users : Table User String User.id
  tokens : Table BootstrapToken String BootstrapToken.tokenHash
  now : ℤ

namespace AuthDb

variable (db : AuthDb)

/-- The token can be consumed. -/
def Usable (tokenHash : String) : Prop :=
  ∃ t ∈ db.tokens, t.tokenHash = tokenHash ∧ t.usedAt = none ∧ db.now < t.expiresAt

instance (tokenHash : String) : Decidable (db.Usable tokenHash) :=
  (inferInstance : Decidable
    (∃ t ∈ db.tokens, t.tokenHash = tokenHash ∧ t.usedAt = none ∧ db.now < t.expiresAt))

/-- There is an administrator. -/
def HasAdmin : Prop := ∃ u ∈ db.users, u.role = .admin

instance : Decidable db.HasAdmin := (inferInstance : Decidable (∃ u ∈ db.users, u.role = .admin))

/-- `consumeBootstrapToken`. -/
def consume (tokenHash : String) : AuthDb :=
  { db with
    tokens := db.tokens.update
      (fun t => t.tokenHash = tokenHash ∧ t.usedAt = none ∧ db.now < t.expiresAt)
      (fun t => { t with usedAt := some db.now }) fun _ => rfl }

/-- The user that a sign-up creates. -/
def create (id email : String) : AuthDb :=
  { db with users := db.users.insert ⟨id, Text.lower email, .viewer⟩ }

/-- The user of an address becomes an administrator. -/
def promote (email : String) : AuthDb :=
  { db with
    users := db.users.update (fun u => u.email = email) (fun u => { u with role := .admin })
      fun _ => rfl }

/-- The answers a statement can have: a token is consumed when it is usable, the users are counted,
and a new user has an id and an address of its own. -/
def Answers (c : Cmd) (x : Except Thrown c.Resp) : Prop :=
  match c, x with
  | .consumeBootstrapToken tokenHash, .ok consumed => consumed = decide (db.Usable tokenHash)
  | .countUsers, .ok n => n = db.users.rows.length
  | .createUser email _ _, .ok id => ∀ u ∈ db.users, u.id ≠ id ∧ u.email ≠ Text.lower email
  | _, _ => True

instance decidableAnswers (c : Cmd) (x : Except Thrown c.Resp) : Decidable (db.Answers c x) := by
  cases x with
  | error e => cases c <;> exact isTrue trivial
  | ok a =>
    induction c using Cmd.casesOn with
    | consumeBootstrapToken tokenHash =>
      exact (inferInstance : Decidable ((a : Bool) = decide (db.Usable tokenHash)))
    | countUsers => exact (inferInstance : Decidable ((a : ℕ) = db.users.rows.length))
    | createUser email name password =>
      exact (inferInstance : Decidable
        (∀ u ∈ db.users, u.id ≠ (a : String) ∧ u.email ≠ Text.lower email))
    | _ => exact isTrue trivial

/-- After a statement. -/
def next (c : Cmd) (x : Except Thrown c.Resp) : AuthDb :=
  match c, x with
  | .consumeBootstrapToken tokenHash, .ok _ => db.consume tokenHash
  | .createUser email _ _, .ok id => db.create id email
  | .promote email, .ok _ => db.promote email
  | _, _ => db

end AuthDb

/-! ### One run -/

/-- The tables, whether the token has been consumed, and whether a user has been promoted. -/
structure SetupState where
  db : AuthDb
  consumed : Bool
  promoted : Bool

/-- A set-up consumes its own token only, creates a user when it has done so, and promotes one that
exists. -/
def authDb (tokenHash : String) : Monitor signature Thrown SetupState where
  guard s c :=
    match c with
    | .consumeBootstrapToken h => h = tokenHash
    | .createUser .. => s.consumed = true
    | .promote email => ∃ u ∈ s.db.users, u.email = email
    | _ => True
  allowed s c x := s.db.Answers c x
  next s c x :=
    match c, x with
    | .consumeBootstrapToken h, .ok consumed =>
      { s with db := s.db.consume h, consumed := s.consumed || consumed }
    | .promote email, .ok _ => { s with db := s.db.promote email, promoted := true }
    | c, x => { s with db := s.db.next c x }

instance decidableAllowed (tokenHash : String) (s : SetupState) (c : Cmd)
    (x : Except Thrown c.Resp) : Decidable ((authDb tokenHash).allowed s c x) :=
  AuthDb.decidableAnswers s.db c x

/-- **First-admin set-up is atomic.**  No user exists and the token is as usable as it was, or there
is an administrator. -/
def Settled (before after : AuthDb) (tokenHash : String) : Prop :=
  (after.users.rows = [] ∧ (before.Usable tokenHash → after.Usable tokenHash)) ∨ after.HasAdmin

section

variable {fingerprint : String → String} {input : SetupInput} {s : SetupState} {h : String}

/-- The statements after the token. -/
theorem createAdmin_wp (hs : s.consumed = true) :
    (createAdmin input).wp (authDb h) (fun _ _ => True) s := by
  refine Prog.wp_bind_of (R := fun r s' => r.toOption.isSome →
    ∃ u ∈ s'.db.users, u.email = Text.lower input.email) ?_ ?_ fun _ _ _ => trivial
  · refine Prog.wp_bind_of (R := fun _ s' => s'.consumed = true) ?_ ?_ fun _ _ _ h => by cases h
    · refine Prog.wp_issue_bind trivial (fun existing _ => ?_) fun _ _ => hs
      exact Prog.wp_ite (fun _ => hs) fun _ => hs
    · intro _ s' hs'
      refine Prog.wp_issue.mpr ⟨hs', fun x hx => ?_⟩
      cases x with
      | error e => exact fun h => by cases h
      | ok id =>
        intro _
        refine ⟨⟨id, Text.lower input.email, .viewer⟩, Table.mem_insert.mpr (Or.inr ⟨rfl, ?_⟩), rfl⟩
        exact fun u hu => (hx u hu).1
  · intro id s' huser
    refine Prog.wp_issue_bind (huser rfl) (fun _ _ => ?_) fun _ _ => trivial
    refine Prog.wp_issue_bind trivial (fun _ _ => ?_) fun _ _ => trivial
    exact Prog.wp_issue_bind trivial (fun _ _ => trivial) fun _ _ => trivial

/-- A set-up keeps to its own token. -/
theorem setupAction_wp :
    (setupAction fingerprint input).wp (authDb (fingerprint input.token)) (fun _ _ => True) s := by
  refine Prog.wp_tryCatch_of (R := fun _ _ => True) ?_ (fun _ _ _ => trivial) fun _ _ _ => trivial
  refine Prog.wp_ite (fun _ => trivial) fun _ => ?_
  refine Prog.wp_issue_bind rfl (fun consumed _ => ?_) fun _ _ => trivial
  cases consumed with
  | false => trivial
  | true => exact createAdmin_wp (Bool.or_true _)

end

/-! ### What the statements keep -/

section

variable {db before : AuthDb} {s : SetupState} {h : String} {c : Cmd} {x : Except Thrown c.Resp}

theorem tokens_consume : (db.consume h).tokens = db.tokens.update
    (fun t => t.tokenHash = h ∧ t.usedAt = none ∧ db.now < t.expiresAt)
    (fun t => { t with usedAt := some db.now }) fun _ => rfl := rfl

theorem users_promote {email : String} : (db.promote email).users = db.users.update
    (fun u => u.email = email) (fun u => { u with role := .admin }) fun _ => rfl := rfl

/-- A token is consumed once. -/
theorem not_usable_consume : ¬ (db.consume h).Usable h := by
  rintro ⟨t, ht, hhash, hunused, hexpires⟩
  rw [tokens_consume] at ht
  rcases Table.update_cases ht with ⟨t₀, _, _, rfl⟩ | ⟨_, hout⟩
  · exact absurd hunused (Option.some_ne_none _)
  · exact hout ⟨hhash, hunused, hexpires⟩

/-- Who has the address becomes an administrator. -/
theorem hasAdmin_promote {email : String} (huser : ∃ u ∈ db.users, u.email = email) :
    (db.promote email).HasAdmin := by
  obtain ⟨u, hu, hemail⟩ := huser
  refine ⟨{ u with role := .admin }, ?_, rfl⟩
  rw [users_promote]
  exact Table.mem_update.mpr ⟨u, hu, if_pos hemail⟩

/-- An administrator stays one. -/
theorem hasAdmin_next (hadmin : s.db.HasAdmin) : ((authDb h).next s c x).db.HasAdmin := by
  obtain ⟨u, hu, hrole⟩ := hadmin
  cases c with
  | createUser email name password =>
    cases x with
    | error e => exact ⟨u, hu, hrole⟩
    | ok id => exact ⟨u, Table.mem_insert_of_mem hu, hrole⟩
  | promote email =>
    cases x with
    | error e => exact ⟨u, hu, hrole⟩
    | ok a =>
      by_cases hemail : u.email = email
      · exact hasAdmin_promote ⟨u, hu, hemail⟩
      · refine ⟨u, ?_, hrole⟩
        show u ∈ (s.db.promote email).users
        rw [users_promote]
        exact Table.mem_update_of_neg hu hemail
  | consumeBootstrapToken => cases x <;> exact ⟨u, hu, hrole⟩
  | _ => exact ⟨u, hu, hrole⟩

/-- How far a set-up has come that started without users. -/
structure Progress (before : AuthDb) (h : String) (s : SetupState) : Prop where
  fresh : s.consumed = false → s.db.users.rows = [] ∧ (s.db.Usable h ↔ before.Usable h)
  burnt : s.consumed = true → before.Usable h ∧ ¬ s.db.Usable h
  promoted : s.promoted = true → s.db.HasAdmin
  viewers : s.promoted = false → ¬ s.db.HasAdmin

/-- **Step.** -/
theorem progress_next (hs : Progress before h s) (hguard : (authDb h).guard s c)
    (hx : (authDb h).allowed s c x) : Progress before h ((authDb h).next s c x) := by
  cases c with
  | consumeBootstrapToken h' =>
    obtain rfl : h' = h := hguard
    cases x with
    | error e => exact hs
    | ok consumed =>
      have hconsumed : consumed = decide (s.db.Usable h') := hx
      refine ⟨fun hnot => ?_, fun hburnt => ⟨?_, not_usable_consume⟩, hs.promoted, hs.viewers⟩
      · obtain ⟨hnot, hunusable⟩ := Bool.or_eq_false_iff.mp hnot
        obtain ⟨hempty, husable⟩ := hs.fresh hnot
        have hbefore : ¬ before.Usable h' := fun hb =>
          of_decide_eq_false (hconsumed.symm.trans hunusable) (husable.mpr hb)
        exact ⟨hempty, iff_of_false not_usable_consume hbefore⟩
      · cases hold : s.consumed with
        | true => exact (hs.burnt hold).1
        | false =>
          have hnow : consumed = true := by simpa [authDb, hold] using hburnt
          exact (hs.fresh hold).2.mp (of_decide_eq_true (hconsumed.symm.trans hnow))
  | countUsers => exact hs
  | createUser email name password =>
    have hconsumed : s.consumed = true := hguard
    cases x with
    | error e => exact hs
    | ok id =>
      refine ⟨fun hnot => ?_, hs.burnt, fun hp => ?_, fun hp => ?_⟩
      · exact absurd (hconsumed.symm.trans hnot) (by decide)
      · obtain ⟨u, hu, hrole⟩ := hs.promoted hp
        exact ⟨u, Table.mem_insert_of_mem hu, hrole⟩
      · rintro ⟨u, hu, hrole⟩
        rcases Table.mem_insert.mp hu with hu | ⟨rfl, _⟩
        · exact hs.viewers hp ⟨u, hu, hrole⟩
        · exact Role.noConfusion hrole
  | promote email =>
    have huser : ∃ u ∈ s.db.users, u.email = email := hguard
    cases x with
    | error e => exact hs
    | ok a =>
      refine ⟨fun hnot => ?_, hs.burnt, fun _ => hasAdmin_promote huser,
        fun hp => absurd hp (by simp [authDb])⟩
      -- there is no user before the token has been consumed
      obtain ⟨u, hu, _⟩ := huser
      have hempty := (hs.fresh hnot).1
      rw [← Table.mem_rows, hempty] at hu
      exact absurd hu List.not_mem_nil
  | signInEmail email password => exact hs
  | recordAudit targetId => exact hs

end

/-! ### When set-up is atomic -/

section

variable {fingerprint : String → String} {input : SetupInput} {db : AuthDb}
  {tr : List (Event signature Thrown)} {en : Ending signature Thrown Outcome}

/-- The state after a run. -/
def afterRun (db : AuthDb) (h : String) (tr : List (Event signature Thrown)) : SetupState :=
  (authDb h).after ⟨db, false, false⟩ tr

/-- **Run.**  Every run from a state without users, finished or not. -/
theorem progress_of_runs (hempty : db.users.rows = [])
    (hr : (setupAction fingerprint input).Runs tr en)
    (ha : (authDb (fingerprint input.token)).Admits ⟨db, false, false⟩ tr) :
    Progress db (fingerprint input.token) (afterRun db (fingerprint input.token) tr) := by
  have hkeeps := (Prog.sound setupAction_wp hr ha).1
  refine hkeeps.invariant_of_admits ha (fun s c x hs hguard hx => progress_next hs hguard hx) ?_
  refine ⟨fun _ => ⟨hempty, Iff.rfl⟩, fun h => Bool.noConfusion h, fun h => Bool.noConfusion h,
    fun _ => ?_⟩
  rintro ⟨u, hu, _⟩
  rw [← Table.mem_rows, hempty] at hu
  exact absurd hu List.not_mem_nil

theorem hasAdmin_of_runs (hadmin : db.HasAdmin)
    (hr : (setupAction fingerprint input).Runs tr en)
    (ha : (authDb (fingerprint input.token)).Admits ⟨db, false, false⟩ tr) :
    (afterRun db (fingerprint input.token) tr).db.HasAdmin := by
  have hkeeps := (Prog.sound setupAction_wp hr ha).1
  refine Monitor.Keeps.invariant_of_admits (I := fun s => s.db.HasAdmin) hkeeps ha ?_ hadmin
  intro s c x hs _ _
  exact hasAdmin_next hs

/-- A run is settled exactly when it has left the token alone, or has promoted the user, or there was
an administrator. -/
theorem settled_run_iff (hdb : db.users.rows = [] ∨ db.HasAdmin)
    (hr : (setupAction fingerprint input).Runs tr en)
    (ha : (authDb (fingerprint input.token)).Admits ⟨db, false, false⟩ tr) :
    Settled db (afterRun db (fingerprint input.token) tr).db (fingerprint input.token) ↔
      (afterRun db (fingerprint input.token) tr).consumed = false ∨
        (afterRun db (fingerprint input.token) tr).promoted = true ∨ db.HasAdmin := by
  rcases hdb with hempty | hadmin
  · have hp := progress_of_runs hempty hr ha
    constructor
    · rintro (⟨_, husable⟩ | hafter)
      · refine Or.inl ?_
        cases hc : (afterRun db (fingerprint input.token) tr).consumed with
        | false => rfl
        | true =>
          obtain ⟨hbefore, hburnt⟩ := hp.burnt hc
          exact absurd (husable hbefore) hburnt
      · refine Or.inr (Or.inl ?_)
        cases hpr : (afterRun db (fingerprint input.token) tr).promoted with
        | true => rfl
        | false => exact absurd hafter (hp.viewers hpr)
    · rintro (hc | hpr | hadmin)
      · obtain ⟨hempty', husable⟩ := hp.fresh hc
        exact Or.inl ⟨hempty', husable.mpr⟩
      · exact Or.inr (hp.promoted hpr)
      · exact Or.inr (hasAdmin_of_runs hadmin hr ha)
  · exact iff_of_true (Or.inr (hasAdmin_of_runs hadmin hr ha)) (Or.inr (Or.inr hadmin))

/-- A run that ends before the token. -/
theorem consumed_of_short (hshort : (units input.password).length < 12)
    (hr : (setupAction fingerprint input).Runs tr en) (h : String) :
    (afterRun db h tr).consumed = false := by
  have hprog : setupAction fingerprint input =
      .ret (.state false "Password must be at least 12 characters.") := by
    rw [setupAction, if_pos hshort]
    rfl
  rw [hprog] at hr
  cases hr with
  | ret => rfl
  | crashed => rfl

/-- A run that breaks off when the token has been consumed. -/
theorem exists_burnt (hlong : ¬ (units input.password).length < 12)
    (husable : db.Usable (fingerprint input.token)) :
    ∃ tr, (setupAction fingerprint input).Runs tr .crashed ∧
      (authDb (fingerprint input.token)).Admits ⟨db, false, false⟩ tr ∧
      (afterRun db (fingerprint input.token) tr).consumed = true ∧
      (afterRun db (fingerprint input.token) tr).promoted = false := by
  refine ⟨[⟨.consumeBootstrapToken (fingerprint input.token), .ok true⟩], ?_, ⟨?_, trivial⟩, rfl, rfl⟩
  · rw [setupAction, if_neg hlong]
    exact .call _ (.crashed _)
  · exact (decide_eq_true husable).symm

/-- The set-up is refused, or there is an administrator already. -/
def Refused (fingerprint : String → String) (input : SetupInput) (db : AuthDb) : Prop :=
  (units input.password).length < 12 ∨ ¬ db.Usable (fingerprint input.token) ∨ db.HasAdmin

/-- **When set-up is atomic.**  Whatever fails and wherever a run breaks off, it is settled exactly
when the set-up is refused, or there is an administrator already; a single run is exactly when it has
left the token alone or promoted the user, or there is one. -/
theorem setup_atomic_iff (fingerprint : String → String) (input : SetupInput) (db : AuthDb)
    (hdb : db.users.rows = [] ∨ db.HasAdmin) :
    ((∀ tr en, (setupAction fingerprint input).Runs tr en →
        (authDb (fingerprint input.token)).Admits ⟨db, false, false⟩ tr →
          Settled db (afterRun db (fingerprint input.token) tr).db (fingerprint input.token)) ↔
      Refused fingerprint input db) ∧
    ∀ tr en, (setupAction fingerprint input).Runs tr en →
      (authDb (fingerprint input.token)).Admits ⟨db, false, false⟩ tr →
        (Settled db (afterRun db (fingerprint input.token) tr).db (fingerprint input.token) ↔
          (afterRun db (fingerprint input.token) tr).consumed = false ∨
            (afterRun db (fingerprint input.token) tr).promoted = true ∨ db.HasAdmin) := by
  refine ⟨⟨fun hall => ?_, ?_⟩, fun tr en hr ha => settled_run_iff hdb hr ha⟩
  · by_contra hopen
    obtain ⟨hlong, hrest⟩ := not_or.mp hopen
    obtain ⟨husable, hadmin⟩ := not_or.mp hrest
    obtain ⟨tr, hr, ha, hconsumed, hpromoted⟩ := exists_burnt hlong (not_not.mp husable)
    rcases (settled_run_iff hdb hr ha).mp (hall tr _ hr ha) with h | h | h
    · exact Bool.noConfusion (hconsumed.symm.trans h)
    · exact Bool.noConfusion (hpromoted.symm.trans h)
    · exact hadmin h
  · intro hrefused tr en hr ha
    refine (settled_run_iff hdb hr ha).mpr ?_
    rcases hrefused with hshort | hunusable | hadmin
    · exact Or.inl (consumed_of_short hshort hr _)
    · rcases hdb with hempty | hadmin
      · cases hc : (afterRun db (fingerprint input.token) tr).consumed with
        | false => exact Or.inl rfl
        | true => exact absurd ((progress_of_runs hempty hr ha).burnt hc).1 hunusable
      · exact Or.inr (Or.inr hadmin)
    · exact Or.inr (Or.inr hadmin)

end

/-! ### Samples -/

namespace Sample

/-- No user, and a token that can be consumed. -/
def fresh : AuthDb := ⟨.empty, ⟨[⟨"t", 1000, none⟩], List.nodup_singleton _⟩, 0⟩

def input : SetupInput := ⟨"t", "Owner@hood", "Owner", "correct horse"⟩

/-- The answers to a set-up: how creating the user ends, and how promoting it does. -/
def answers (create : Except Thrown String) (promote : Except Thrown Unit) :
    (c : Cmd) → Except Thrown c.Resp
  | .consumeBootstrapToken _ => .ok true
  | .countUsers => .ok 0
  | .createUser .. => create
  | .promote _ => promote
  | .signInEmail .. => .ok ()
  | .recordAudit _ => .ok ()

/-- The run with these answers. -/
def run (create : Except Thrown String) (promote : Except Thrown Unit) :
    List (Event signature Thrown) × Except Thrown Outcome :=
  (setupAction id input).against (answers create promote)

end Sample

/-- A set-up that goes through: the token is burnt, and there is an administrator. -/
theorem setup_atomic_iff_fresh :
    ∃ tr en, (setupAction id Sample.input).Runs tr en ∧
      (authDb "t").Admits ⟨Sample.fresh, false, false⟩ tr ∧
      ¬ (afterRun Sample.fresh "t" tr).db.Usable "t" ∧
      Settled Sample.fresh (afterRun Sample.fresh "t" tr).db "t" := by
  have hr := Prog.against_runs (Sample.answers (.ok "u1") (.ok ())) (setupAction id Sample.input)
  have ha : (authDb "t").Admits ⟨Sample.fresh, false, false⟩ (Sample.run (.ok "u1") (.ok ())).1 := by
    decide
  have hburnt : ¬ (afterRun Sample.fresh "t" (Sample.run (.ok "u1") (.ok ())).1).db.Usable "t" := by
    decide
  have hpromoted : (afterRun Sample.fresh "t" (Sample.run (.ok "u1") (.ok ())).1).promoted = true := by
    decide
  exact ⟨_, _, hr, ha, hburnt,
    ((setup_atomic_iff id Sample.input Sample.fresh (Or.inl rfl)).2 _ _ hr ha).mpr
      (Or.inr (Or.inl hpromoted))⟩

/-- A sign-up that is refused leaves the token burnt and no user; a promotion that fails leaves a
user who is no administrator. -/
theorem setup_not_atomic :
    (∃ tr r, (setupAction id Sample.input).Runs tr (.finished r) ∧
      (authDb "t").Admits ⟨Sample.fresh, false, false⟩ tr ∧
      (afterRun Sample.fresh "t" tr).db.users.rows = [] ∧
      ¬ (afterRun Sample.fresh "t" tr).db.Usable "t") ∧
    (∃ tr r, (setupAction id Sample.input).Runs tr (.finished r) ∧
      (authDb "t").Admits ⟨Sample.fresh, false, false⟩ tr ∧
      (afterRun Sample.fresh "t" tr).db.users.rows = [⟨"u1", "owner@hood", .viewer⟩]) ∧
    ¬ ∀ (fingerprint : String → String) (input : SetupInput) (db : AuthDb), db.users.rows = [] →
      ∀ tr en, (setupAction fingerprint input).Runs tr en →
        (authDb (fingerprint input.token)).Admits ⟨db, false, false⟩ tr →
          Settled db (afterRun db (fingerprint input.token) tr).db (fingerprint input.token) := by
  have hr := Prog.against_runs (Sample.answers (.error (.error "Invalid email")) (.ok ()))
    (setupAction id Sample.input)
  have ha : (authDb "t").Admits ⟨Sample.fresh, false, false⟩
      (Sample.run (.error (.error "Invalid email")) (.ok ())).1 := by decide
  have hempty : (afterRun Sample.fresh "t"
      (Sample.run (.error (.error "Invalid email")) (.ok ())).1).db.users.rows = [] := by
    decide
  have hburnt : ¬ (afterRun Sample.fresh "t"
      (Sample.run (.error (.error "Invalid email")) (.ok ())).1).db.Usable "t" := by decide
  refine ⟨⟨_, _, hr, ha, hempty, hburnt⟩, ⟨_, _, Prog.against_runs
    (Sample.answers (.ok "u1") (.error .other)) (setupAction id Sample.input), ?_, ?_⟩, fun h => ?_⟩
  · decide
  · decide
  · have husable : Sample.fresh.Usable "t" := by decide
    rcases h id Sample.input Sample.fresh rfl _ _ hr ha with ⟨_, hkept⟩ | ⟨u, hu, _⟩
    · exact hburnt (hkept husable)
    · have hu : u ∈ ([] : List User) := hempty ▸ hu
      exact absurd hu List.not_mem_nil

end FirstAdmin
