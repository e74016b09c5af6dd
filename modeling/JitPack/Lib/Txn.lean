import Mathlib

/-!
# Transactions

A procedure runs statements against a database and answers or fails. Each statement may fail for a
reason of its own (a lost disk, a cancelled request): which ones do is an oracle, so a property of a
procedure that holds for every oracle holds however it is interrupted. A failed statement has no
effect. Inside a transaction the statements see and change a view of the database; `commit` makes
the view the database, and when the transaction ends, in whatever way, the view is given up. Memory
of the process is reached by no rollback.

Two kinds of rules are derived. A run that answers is taken apart step by step (`bind_ok` and the
inversion of each primitive). A run that fails leaves the database as it was if the procedure
commits last (`Atomic`), which is shown by walking over its parts with the rules of `Keeps` and
`Atomic`.
-/

namespace Txn

/-- What a procedure runs against: the database, the view an open transaction has of it, the memory
of the process and the number of statements run so far. -/
structure World (δ μ : Type) where
  disk : δ
  db : δ
  mem : μ
  ran : Nat

/-- A procedure. The oracle says which statements fail on their own, and with what. -/
def Proc (ε δ μ α : Type) := (Nat → Option ε) → World δ μ → Except ε α × World δ μ

variable {ε δ μ α β : Type}

instance instMonadProc : Monad (Proc ε δ μ) where
  pure a := fun _ w => (.ok a, w)
  bind x f := fun faults w =>
    match x faults w with
    | (.ok a, w') => f a faults w'
    | (.error e, w') => (.error e, w')

namespace World

/-- The world after one more statement. -/
def next (w : World δ μ) : World δ μ := { w with ran := w.ran + 1 }

@[simp] theorem next_db (w : World δ μ) : w.next.db = w.db := rfl
@[simp] theorem next_disk (w : World δ μ) : w.next.disk = w.disk := rfl
@[simp] theorem next_mem (w : World δ μ) : w.next.mem = w.mem := rfl

end World

namespace Proc

/-! ## Primitives -/

def fail (e : ε) : Proc ε δ μ α := fun _ w => (.error e, w)

/-- A statement: `f` sees the view and answers with a new one or refuses. -/
def exec (f : δ → Except ε (α × δ)) : Proc ε δ μ α := fun faults w =>
  match faults w.ran with
  | some e => (.error e, w.next)
  | none =>
    match f w.db with
    | .error e => (.error e, w.next)
    | .ok (a, db) => (.ok a, { w.next with db })

/-- A statement that only reads. -/
def query (f : δ → α) : Proc ε δ μ α := exec fun db => .ok (f db, db)

/-- A statement that only writes, and may refuse. -/
def write (f : δ → Except ε δ) : Proc ε δ μ Unit := exec fun db => (f db).map ((), ·)

/-- An access to the memory of the process. -/
def memory (f : μ → Except ε α × μ) : Proc ε δ μ α := fun _ w => ((f w.mem).1, { w with mem := (f w.mem).2 })

def commit : Proc ε δ μ Unit := fun faults w =>
  match faults w.ran with
  | some e => (.error e, w.next)
  | none => (.ok (), { w.next with disk := w.db })

/-- A transaction: it starts from the database and ends with what has been committed. -/
def transact (x : Proc ε δ μ α) : Proc ε δ μ α := fun faults w =>
  let (r, w') := x faults { w with db := w.disk }
  (r, { w' with db := w'.disk })

/-- A statement whose failures of one kind are handled: a refused statement has had no effect. -/
def attempt (x : Proc ε δ μ α) (handles : ε → Bool) : Proc ε δ μ (Option α) := fun faults w =>
  match x faults w with
  | (.ok a, w') => (.ok (some a), w')
  | (.error e, w') => if handles e then (.ok none, w') else (.error e, w')

/-- A statement whose failures of one kind are answered with the error `e'`. -/
def failAs (x : Proc ε δ μ α) (handles : ε → Bool) (e' : ε) : Proc ε δ μ α := fun faults w =>
  match x faults w with
  | (.ok a, w') => (.ok a, w')
  | (.error e, w') => (.error (if handles e then e' else e), w')

/-- A step that is left out if the condition fails, with `a` in place of its answer. -/
def onlyIf (c : Bool) (x : Proc ε δ μ α) (a : α) : Proc ε δ μ α := if c then x else pure a

/-! ## Runs that answer -/

section
variable {faults : Nat → Option ε} {w w' : World δ μ} {x : Proc ε δ μ α} {f : α → Proc ε δ μ β}
variable {a a' : α} {b : β}

theorem bind_eq (x : Proc ε δ μ α) (f : α → Proc ε δ μ β) (faults : Nat → Option ε)
    (w : World δ μ) :
    (x >>= f) faults w =
      match x faults w with
      | (.ok a, w') => f a faults w'
      | (.error e, w') => (.error e, w') := rfl

@[simp] theorem pure_ok : (pure a : Proc ε δ μ α) faults w = (.ok a', w') ↔ a = a' ∧ w = w' := by
  simp [pure]

/-- A sequence answers if its parts do. -/
@[simp] theorem bind_ok : (x >>= f) faults w = (.ok b, w') ↔
    ∃ a w₁, x faults w = (.ok a, w₁) ∧ f a faults w₁ = (.ok b, w') := by
  rw [bind_eq]
  rcases x faults w with ⟨_ | a, w₁⟩ <;> simp

/-- A renamed answer changes nothing else. -/
@[simp] theorem bind_pure_world (x : Proc ε δ μ α) (f : α → β) (faults : Nat → Option ε)
    (w : World δ μ) : ((x >>= fun a => pure (f a)) faults w).2 = (x faults w).2 := by
  rw [bind_eq]
  rcases x faults w with ⟨_ | a, w₁⟩ <;> rfl

@[simp] theorem fail_ok (e : ε) : (fail e : Proc ε δ μ α) faults w ≠ (.ok a, w') := by
  simp [fail]

@[simp] theorem exec_ok {f : δ → Except ε (α × δ)} :
    exec f faults w = (.ok a, w') ↔
      faults w.ran = none ∧ ∃ db, f w.db = .ok (a, db) ∧ w' = { w.next with db } := by
  unfold exec
  cases faults w.ran with
  | some e => simp
  | none =>
    rcases f w.db with _ | ⟨b, db⟩
    · simp
    · simp only [Prod.mk.injEq, Except.ok.injEq, true_and]
      constructor
      · rintro ⟨rfl, rfl⟩
        exact ⟨db, ⟨rfl, rfl⟩, rfl⟩
      · rintro ⟨_, ⟨rfl, rfl⟩, rfl⟩
        exact ⟨rfl, rfl⟩

@[simp] theorem query_ok {f : δ → α} :
    query f faults w = (.ok a, w') ↔ faults w.ran = none ∧ a = f w.db ∧ w' = w.next := by
  rw [query, exec_ok]
  constructor
  · rintro ⟨hf, _, h, rfl⟩
    cases h
    exact ⟨hf, rfl, rfl⟩
  · rintro ⟨hf, rfl, rfl⟩
    exact ⟨hf, w.db, rfl, rfl⟩

@[simp] theorem write_ok {f : δ → Except ε δ} {u : Unit} :
    write f faults w = (.ok u, w') ↔
      faults w.ran = none ∧ ∃ db, f w.db = .ok db ∧ w' = { w.next with db } := by
  rw [write, exec_ok]
  refine and_congr_right fun _ => exists_congr fun db => and_congr_left fun _ => ?_
  cases f w.db <;> simp [Except.map]

@[simp] theorem memory_ok {f : μ → Except ε α × μ} :
    memory f faults w = (.ok a, w') ↔
      (f w.mem).1 = .ok a ∧ w' = { w with mem := (f w.mem).2 } := by
  simp [memory, eq_comm]

@[simp] theorem commit_ok {u : Unit} :
    (commit : Proc ε δ μ Unit) faults w = (.ok u, w') ↔
      faults w.ran = none ∧ w' = { w.next with disk := w.db } := by
  unfold commit
  cases faults w.ran <;> simp [eq_comm]

theorem transact_ok : transact x faults w = (.ok a, w') ↔
    ∃ w₁, x faults { w with db := w.disk } = (.ok a, w₁) ∧ w' = { w₁ with db := w₁.disk } := by
  unfold transact
  rcases x faults { w with db := w.disk } with ⟨r, w₁⟩
  simp [eq_comm]

/-- A handled failure answers `none`, with what the failed run left. -/
theorem attempt_ok {handles : ε → Bool} {r : Option α} :
    attempt x handles faults w = (.ok r, w') ↔
      (∃ a, r = some a ∧ x faults w = (.ok a, w')) ∨
      r = none ∧ ∃ e, handles e = true ∧ x faults w = (.error e, w') := by
  unfold attempt
  rcases x faults w with ⟨e | a, w₁⟩
  · cases h : handles e
    · simp [h]
    · simp [h, @eq_comm _ none r]
  · simp [@eq_comm _ (some a) r]

@[simp] theorem failAs_ok {handles : ε → Bool} {e' : ε} :
    failAs x handles e' faults w = (.ok a, w') ↔ x faults w = (.ok a, w') := by
  unfold failAs
  rcases x faults w with ⟨_ | b, w₁⟩ <;> simp

@[simp] theorem onlyIf_ok {c : Bool} : onlyIf c x a faults w = (.ok a', w') ↔
    c = true ∧ x faults w = (.ok a', w') ∨ c = false ∧ a = a' ∧ w = w' := by
  cases c <;> simp [onlyIf]

@[simp] theorem forM_nil_ok {f : β → Proc ε δ μ PUnit} {u : PUnit} :
    [].forM f faults w = (.ok u, w') ↔ w = w' := by
  simp [List.forM]

@[simp] theorem forM_cons_ok {f : β → Proc ε δ μ PUnit} {bs : List β} {u : PUnit} :
    (b :: bs).forM f faults w = (.ok u, w') ↔
      ∃ w₁, f b faults w = (.ok u, w₁) ∧ bs.forM f faults w₁ = (.ok u, w') := by
  change (f b >>= fun _ => bs.forM f) faults w = _ ↔ _
  rw [bind_ok]
  exact ⟨fun ⟨_, w₁, h⟩ => ⟨w₁, h⟩, fun ⟨w₁, h⟩ => ⟨u, w₁, h⟩⟩

end

/-- A statement that is refused leaves the view alone. -/
theorem exec_error {f : δ → Except ε (α × δ)} {faults : Nat → Option ε} {w w' : World δ μ} {e : ε}
    (h : exec f faults w = (.error e, w')) : w' = w.next := by
  unfold exec at h
  split at h
  · cases h
    rfl
  · split at h <;> cases h
    rfl

/-- A statement fails on its own or because it is refused. -/
theorem write_error {f : δ → Except ε δ} {faults : Nat → Option ε} {w w' : World δ μ} {e : ε}
    (h : write f faults w = (.error e, w')) : faults w.ran = some e ∨ f w.db = .error e := by
  unfold write exec at h
  split at h
  · next e' hf =>
    cases h
    exact .inl hf
  · split at h
    · next e' hf =>
      cases h
      dsimp only at hf
      cases hd : f w.db <;> rw [hd] at hf <;> cases hf
      exact .inr rfl
    · cases h

/-! ## What a run leaves alone

A part of the database and of the memory is given by the function `f` that reads it. -/

section
variable {γ γ' : Type} {f : δ → μ → γ} {x : Proc ε δ μ α} {y : α → Proc ε δ μ β} {a : α}

/-- The procedure leaves `f` as it was, whether it answers or fails. -/
def Keeps (f : δ → μ → γ) (x : Proc ε δ μ α) : Prop :=
  ∀ faults w, f (x faults w).2.disk (x faults w).2.mem = f w.disk w.mem

/-- The procedure leaves `f` as it was if it fails. -/
def Atomic (f : δ → μ → γ) (x : Proc ε δ μ α) : Prop :=
  ∀ faults w e w', x faults w = (.error e, w') → f w'.disk w'.mem = f w.disk w.mem

namespace Keeps

theorem pure : Keeps f (Pure.pure a : Proc ε δ μ α) := fun _ _ => rfl

theorem fail (e : ε) : Keeps f (fail e : Proc ε δ μ α) := fun _ _ => rfl

theorem exec (g : δ → Except ε (α × δ)) : Keeps f (exec g : Proc ε δ μ α) := by
  intro faults w
  unfold Proc.exec
  split
  · rfl
  · split <;> rfl

theorem query (g : δ → α) : Keeps f (query g : Proc ε δ μ α) := exec _

theorem write (g : δ → Except ε δ) : Keeps f (write g : Proc ε δ μ Unit) := exec _

theorem memory {g : μ → Except ε α × μ} (h : ∀ d m, f d (g m).2 = f d m) :
    Keeps f (memory g : Proc ε δ μ α) := fun _ _ => h _ _

theorem attempt (hx : Keeps f x) {handles : ε → Bool} : Keeps f (x.attempt handles) := by
  intro faults w
  have hw := hx faults w
  unfold Proc.attempt
  rcases hr : x faults w with ⟨e | a, w₁⟩
  · rw [hr] at hw
    dsimp only
    split <;> exact hw
  · rw [hr] at hw
    exact hw

theorem failAs (hx : Keeps f x) {handles : ε → Bool} {e' : ε} : Keeps f (x.failAs handles e') := by
  intro faults w
  have hw := hx faults w
  unfold Proc.failAs
  rcases hr : x faults w with ⟨e | a, w₁⟩ <;> rw [hr] at hw <;> exact hw

theorem bind (hx : Keeps f x) (hy : ∀ a, Keeps f (y a)) : Keeps f (x >>= y) := by
  intro faults w
  have hw := hx faults w
  rw [bind_eq]
  rcases hr : x faults w with ⟨e | a, w₁⟩
  · rw [hr] at hw
    exact hw
  · rw [hr] at hw
    exact (hy a faults w₁).trans hw

theorem onlyIf (hx : Keeps f x) {c : Bool} : Keeps f (x.onlyIf c a) := by
  cases c with
  | false => exact pure
  | true => exact hx

theorem forM {bs : List β} {g : β → Proc ε δ μ PUnit} (h : ∀ b ∈ bs, Keeps f (g b)) :
    Keeps f (bs.forM g) := by
  induction bs with
  | nil => exact pure
  | cons b bs ih =>
    exact bind (h b (List.mem_cons_self ..)) fun _ => ih fun c hc => h c (List.mem_cons_of_mem _ hc)

theorem foldlM {bs : List β} {g : α → β → Proc ε δ μ α} (h : ∀ a, ∀ b ∈ bs, Keeps f (g a b)) :
    Keeps f (bs.foldlM g a) := by
  induction bs generalizing a with
  | nil => exact pure
  | cons b bs ih =>
    exact bind (h a b (List.mem_cons_self ..)) fun _ =>
      ih fun a c hc => h a c (List.mem_cons_of_mem _ hc)

/-- What follows `x` leaves `f` as `x` left it. -/
theorem after_bind (hy : ∀ a, Keeps f (y a)) (faults : Nat → Option ε) (w : World δ μ) :
    f ((x >>= y) faults w).2.disk ((x >>= y) faults w).2.mem =
      f (x faults w).2.disk (x faults w).2.mem := by
  rw [bind_eq]
  rcases x faults w with ⟨e | a, w₁⟩
  · rfl
  · exact hy a faults w₁

/-- A procedure that leaves `f` alone leaves alone what `f` determines. -/
theorem comp (hx : Keeps f x) (g : γ → γ') : Keeps (fun d m => g (f d m)) x :=
  fun faults w => congrArg g (hx faults w)

theorem atomic (hx : Keeps f x) : Atomic f x := by
  intro faults w e w' h
  have hw := hx faults w
  rw [h] at hw
  exact hw

end Keeps

namespace Atomic

/-- A failed commit has committed nothing. -/
theorem commit : Atomic f (commit : Proc ε δ μ Unit) := by
  intro faults w e w' h
  unfold Proc.commit at h
  split at h <;> cases h
  rfl

/-- What comes before the commit may fail anywhere. -/
theorem bind (hx : Keeps f x) (hy : ∀ a, Atomic f (y a)) : Atomic f (x >>= y) := by
  intro faults w e w' h
  have hw := hx faults w
  rw [bind_eq] at h
  rcases hr : x faults w with ⟨e | a, w₁⟩
  · rw [hr] at h hw
    cases h
    exact hw
  · rw [hr] at h hw
    exact (hy a faults w₁ e w' h).trans hw

/-- What comes after the commit must not fail. -/
theorem bind_pure (hx : Atomic f x) (g : α → β) : Atomic f (x >>= fun a => pure (g a)) := by
  intro faults w e w' h
  rw [bind_eq] at h
  rcases hr : x faults w with ⟨e | a, w₁⟩
  · rw [hr] at h
    cases h
    exact hx _ _ _ _ hr
  · rw [hr] at h
    cases h

theorem transact (hx : Atomic f x) : Atomic f x.transact := by
  intro faults w e w' h
  unfold Proc.transact at h
  rcases hr : x faults { w with db := w.disk } with ⟨r, w₁⟩
  rw [hr] at h
  cases h
  have hw : f w₁.disk w₁.mem = f w.disk w.mem := hx _ { w with db := w.disk } _ _ hr
  exact hw

theorem comp (hx : Atomic f x) (g : γ → γ') : Atomic (fun d m => g (f d m)) x :=
  fun faults w e w' h => congrArg g (hx faults w e w' h)

end Atomic

end

/-! ## What a run meets

A property of the database that holds of the view and of what is committed. A failed run has to keep to it
as well. -/

section
variable {I J K : δ → Prop} {x : Proc ε δ μ α} {y : α → Proc ε δ μ β} {a : α}

/-- From a view and a database with the one property, the procedure comes to such with the other. -/
def Meets (I J : δ → Prop) (x : Proc ε δ μ α) : Prop :=
  ∀ faults w, I w.db → I w.disk → J (x faults w).2.db ∧ J (x faults w).2.disk

namespace Meets

theorem pure : Meets I I (Pure.pure a : Proc ε δ μ α) := fun _ _ h h' => ⟨h, h'⟩

theorem fail (e : ε) : Meets I I (fail e : Proc ε δ μ α) := fun _ _ h h' => ⟨h, h'⟩

theorem imp (hx : Meets I J x) (h : ∀ d, J d → K d) : Meets I K x :=
  fun faults w hi hi' => (hx faults w hi hi').imp (h _) (h _)

theorem of_imp (hx : Meets J K x) (h : ∀ d, I d → J d) : Meets I K x :=
  fun faults w hi hi' => hx faults w (h _ hi) (h _ hi')

theorem exec {g : δ → Except ε (α × δ)} (h : ∀ d a d', g d = .ok (a, d') → I d → I d') :
    Meets I I (exec g : Proc ε δ μ α) := by
  intro faults w hi hi'
  unfold Proc.exec
  split
  · exact ⟨hi, hi'⟩
  · split
    · exact ⟨hi, hi'⟩
    · next hg => exact ⟨h _ _ _ hg hi, hi'⟩

theorem query (g : δ → α) : Meets I I (query g : Proc ε δ μ α) :=
  exec fun d a d' h hi => by
    cases h
    exact hi

theorem write {g : δ → Except ε δ} (h : ∀ d d', g d = .ok d' → I d → I d') :
    Meets I I (write g : Proc ε δ μ Unit) := exec fun d a d' hg => by
  cases hd : g d with
  | error e =>
    rw [hd] at hg
    cases hg
  | ok d₁ =>
    rw [hd] at hg
    cases hg
    exact h d _ hd

theorem memory (g : μ → Except ε α × μ) : Meets I I (memory g : Proc ε δ μ α) := fun _ _ h h' => ⟨h, h'⟩

theorem commit : Meets I I (commit : Proc ε δ μ Unit) := by
  intro faults w h h'
  unfold Proc.commit
  split
  · exact ⟨h, h'⟩
  · exact ⟨h, h⟩

theorem bind (hx : Meets I J x) (hy : ∀ a, Meets J K (y a)) (h : ∀ d, J d → K d) :
    Meets I K (x >>= y) := by
  intro faults w hi hi'
  have hw := hx faults w hi hi'
  rw [bind_eq]
  rcases hr : x faults w with ⟨e | a, w₁⟩
  · rw [hr] at hw
    exact hw.imp (h _) (h _)
  · rw [hr] at hw
    exact hy a faults w₁ hw.1 hw.2

theorem bind_same (hx : Meets I I x) (hy : ∀ a, Meets I I (y a)) : Meets I I (x >>= y) :=
  hx.bind hy fun _ h => h

/-- What follows `x` may rely on what is known of the answer. -/
theorem bind_of {P : α → Prop} (hx : Meets I I x)
    (hP : ∀ faults w a w', I w.db → x faults w = (.ok a, w') → P a) (hy : ∀ a, P a → Meets I J (y a))
    (h : ∀ d, I d → J d) : Meets I J (x >>= y) := by
  intro faults w hi hi'
  have hw := hx faults w hi hi'
  rw [bind_eq]
  rcases hr : x faults w with ⟨e | a, w₁⟩
  · rw [hr] at hw
    exact hw.imp (h _) (h _)
  · rw [hr] at hw
    exact hy a (hP _ _ _ _ hi hr) faults w₁ hw.1 hw.2

theorem attempt (hx : Meets I I x) {handles : ε → Bool} : Meets I I (x.attempt handles) := by
  intro faults w hi hi'
  have hw := hx faults w hi hi'
  unfold Proc.attempt
  rcases hr : x faults w with ⟨e | a, w₁⟩
  · rw [hr] at hw
    dsimp only
    split <;> exact hw
  · rw [hr] at hw
    exact hw

theorem failAs (hx : Meets I I x) {handles : ε → Bool} {e' : ε} : Meets I I (x.failAs handles e') := by
  intro faults w hi hi'
  have hw := hx faults w hi hi'
  unfold Proc.failAs
  rcases hr : x faults w with ⟨e | a, w₁⟩ <;> rw [hr] at hw <;> exact hw

theorem onlyIf (hx : Meets I I x) {c : Bool} : Meets I I (x.onlyIf c a) := by
  cases c with
  | false => exact pure
  | true => exact hx

theorem forM {bs : List β} {g : β → Proc ε δ μ PUnit} (h : ∀ b ∈ bs, Meets I I (g b)) :
    Meets I I (bs.forM g) := by
  induction bs with
  | nil => exact pure
  | cons b bs ih =>
    exact (h b (List.mem_cons_self ..)).bind_same fun _ => ih fun c hc => h c (List.mem_cons_of_mem _ hc)

theorem foldlM {bs : List β} {g : α → β → Proc ε δ μ α} (h : ∀ a, ∀ b ∈ bs, Meets I I (g a b)) :
    Meets I I (bs.foldlM g a) := by
  induction bs generalizing a with
  | nil => exact pure
  | cons b bs ih =>
    exact (h a b (List.mem_cons_self ..)).bind_same fun _ =>
      ih fun a c hc => h a c (List.mem_cons_of_mem _ hc)

theorem transact (hx : Meets I J x) : Meets I J x.transact := by
  intro faults w _ hi'
  have hw := hx faults { w with db := w.disk } hi' hi'
  exact ⟨hw.2, hw.2⟩

end Meets

end

end Proc

end Txn
