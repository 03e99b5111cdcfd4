import PulseNoise.Run
import Mathlib.Data.List.Forall2

/-!
# What a step yields

The events of a step have no influence on what comes after it. `Action.yield` forgets them: it is
the value and the state that a step leaves behind, or its failure. The rules below compute it
along the structure of a step, so that a run is reasoned about as a computation that may fail.

* `Action.yield_bind` is the rule for one step after another.
* `Action.Computes x r` says that the step `x` leaves the state alone and has the result `r`.
* `Action.computes_foldlM` is the rule for a loop over such steps, and
  `Action.yield_foldlM_eq_error_iff` says where any loop fails.
* `Action.Leaves` also says in which state a step fails, with rules for both ways of a bind.
* `Action.inTurn` goes through steps on one state, and goes on after those that fail.
-/

namespace PulseNoise

variable {α β σ : Type}

/-! ## Computations that may fail -/

theorem bind_eq_ok_iff {x : Except Error α} {f : α → Except Error β} {b : β} :
    (x >>= f) = .ok b ↔ ∃ a, x = .ok a ∧ f a = .ok b := by
  cases x with
  | error e => simp [bind, Except.bind]
  | ok a => simp [bind, Except.bind]

theorem map_eq_ok_iff {x : Except Error α} {f : α → β} {b : β} :
    f <$> x = .ok b ↔ ∃ a, x = .ok a ∧ f a = b := by
  cases x with
  | error e => simp [Functor.map, Except.map]
  | ok a => simp [Functor.map, Except.map]

theorem map_eq_error_iff {x : Except Error α} {f : α → β} {e : Error} :
    f <$> x = .error e ↔ x = .error e := by
  cases x with
  | error e' => simp [Functor.map, Except.map]
  | ok a => simp [Functor.map, Except.map]

theorem exists_eq_ok_of_isOk {x : Except Error α} (h : x.isOk = true) : ∃ a, x = .ok a := by
  cases x with
  | error e => cases h
  | ok a => exact ⟨a, rfl⟩

theorem entry_eq_ok_iff {xs : List α} {i : Nat} {x : α} : entry xs i = .ok x ↔ xs[i]? = some x := by
  unfold entry
  cases xs[i]? with
  | none => simp
  | some y => simp

theorem entry_eq_ok_getD {xs : List α} {i : Nat} (h : i < xs.length) (x₀ : α) :
    entry xs i = .ok (xs.getD i x₀) := by
  rw [entry_eq_ok_iff, List.getD_eq_getElem?_getD, List.getElem?_eq_getElem h]
  rfl

/-- What every step of a loop keeps or carries on, the loop carries on. -/
theorem foldlM_carries {R : β → β → Prop} {f : β → α → Except Error β} (hrefl : ∀ b, R b b)
    (htrans : ∀ {a b c}, R a b → R b c → R a c) (hstep : ∀ {b x b'}, f b x = .ok b' → R b b')
    {xs : List α} {b b' : β} (h : xs.foldlM f b = .ok b') : R b b' := by
  induction xs generalizing b with
  | nil =>
    cases h
    exact hrefl _
  | cons x xs ih =>
    rw [List.foldlM_cons] at h
    obtain ⟨c, hc, hrest⟩ := bind_eq_ok_iff.1 h
    exact htrans (hstep hc) (ih hrest)

/-- A list is mapped element by element. -/
theorem mapM_eq_ok_iff {f : α → Except Error β} {xs : List α} {ys : List β} :
    xs.mapM f = .ok ys ↔ List.Forall₂ (fun x y => f x = .ok y) xs ys := by
  induction xs generalizing ys with
  | nil =>
    rw [List.forall₂_nil_left_iff]
    exact ⟨fun h => (Except.ok.inj h).symm, fun h => congrArg Except.ok h.symm⟩
  | cons x xs ih =>
    simp only [List.mapM_cons, bind_eq_ok_iff, ih, List.forall₂_cons_left_iff]
    constructor
    · rintro ⟨y, hy, ys', hys, he⟩
      exact ⟨y, ys', hy, hys, (Except.ok.inj he).symm⟩
    · rintro ⟨y, ys', hy, hys, rfl⟩
      exact ⟨y, hy, ys', hys, rfl⟩

/-- Every element of the result comes from the element in its place. -/
theorem exists_getElem?_of_mapM {f : α → Except Error β} {xs : List α} {ys : List β}
    (h : xs.mapM f = .ok ys) {i : Nat} {y : β} (hy : ys[i]? = some y) :
    ∃ x, xs[i]? = some x ∧ f x = .ok y := by
  rw [mapM_eq_ok_iff] at h
  induction h generalizing i with
  | nil => cases hy
  | cons hhead _ ih =>
    cases i with
    | zero =>
      obtain rfl := Option.some.inj hy
      exact ⟨_, rfl, hhead⟩
    | succ i => exact ih hy

/-- Mapping the numbers below `n` gives a value for each of them. -/
theorem getElem?_of_mapM_range {f : Nat → Except Error β} {n : Nat} {ys : List β}
    (h : (List.range n).mapM f = .ok ys) :
    ys.length = n ∧ ∀ i < n, ∃ y, ys[i]? = some y ∧ f i = .ok y := by
  have hlength : ys.length = n := by
    rw [← (mapM_eq_ok_iff.1 h).length_eq, List.length_range]
  refine ⟨hlength, fun i hi => ?_⟩
  have hlt : i < ys.length := hlength ▸ hi
  have hy : ys[i]? = some ys[i] := List.getElem?_eq_getElem hlt
  obtain ⟨j, hj, hfj⟩ := exists_getElem?_of_mapM h hy
  rw [List.getElem?_range hi] at hj
  obtain rfl := Option.some.inj hj
  exact ⟨_, hy, hfj⟩

theorem exists_mem_of_mapM {f : α → Except Error β} {xs : List α} {ys : List β}
    (h : xs.mapM f = .ok ys) {y : β} (hy : y ∈ ys) : ∃ x ∈ xs, f x = .ok y := by
  obtain ⟨i, hi⟩ := List.getElem?_of_mem hy
  obtain ⟨x, hx, hfx⟩ := exists_getElem?_of_mapM h hi
  exact ⟨x, List.mem_of_getElem? hx, hfx⟩

/-- A list is mapped successfully when each of its elements is. -/
theorem exists_mapM_eq_ok_iff {f : α → Except Error β} {xs : List α} :
    (∃ ys, xs.mapM f = .ok ys) ↔ ∀ x ∈ xs, ∃ y, f x = .ok y := by
  induction xs with
  | nil => simp [pure, Except.pure]
  | cons x xs ih =>
    rw [List.forall_mem_cons, ← ih]
    simp only [List.mapM_cons, bind_eq_ok_iff]
    constructor
    · rintro ⟨_, y, hy, ys, hys, -⟩
      exact ⟨⟨y, hy⟩, ys, hys⟩
    · rintro ⟨⟨y, hy⟩, ys, hys⟩
      exact ⟨y :: ys, y, hy, ys, hys, rfl⟩

/-- Mapping a list fails at the first element that fails. -/
theorem mapM_eq_error_of_find? {f : α → Except Error β} {xs : List α} {p : α → Bool} {x : α}
    {e : Error} (hx : xs.find? p = some x) (hok : ∀ y ∈ xs, p y = false → ∃ b, f y = .ok b)
    (herror : f x = .error e) : xs.mapM f = .error e := by
  induction xs with
  | nil => cases hx
  | cons y xs ih =>
    rw [List.forall_mem_cons] at hok
    rw [List.mapM_cons]
    cases hy : p y with
    | true =>
      rw [List.find?_cons_of_pos hy] at hx
      rw [Option.some.inj hx, herror]
      rfl
    | false =>
      rw [List.find?_cons_of_neg (Bool.not_eq_true _ ▸ hy)] at hx
      obtain ⟨b, hb⟩ := hok.1 hy
      rw [hb, ih hx hok.2]
      rfl

/-- `mapM_eq_error_of_find?` for a list that is split at the first element that fails. -/
theorem mapM_append_cons_eq_error {f : α → Except Error β} {before : List α} {x : α}
    {e : Error} (hbefore : ∀ y ∈ before, ∃ b, f y = .ok b) (hx : f x = .error e) (after : List α) :
    (before ++ x :: after).mapM f = .error e := by
  induction before with
  | nil =>
    rw [List.nil_append, List.mapM_cons, hx]
    rfl
  | cons y before ih =>
    rw [List.forall_mem_cons] at hbefore
    obtain ⟨b, hb⟩ := hbefore.1
    rw [List.cons_append, List.mapM_cons, hb, ih hbefore.2]
    rfl

/-- Either all elements have a property, or there is a first one that has not. -/
theorem forall_or_exists_first (p : α → Prop) (xs : List α) :
    (∀ x ∈ xs, p x) ∨
      ∃ before x after, xs = before ++ x :: after ∧ (∀ y ∈ before, p y) ∧ ¬ p x := by
  induction xs with
  | nil => exact .inl (List.forall_mem_nil p)
  | cons x xs ih =>
    by_cases hx : p x
    · rcases ih with hall | ⟨before, y, after, rfl, hbefore, hy⟩
      · exact .inl (List.forall_mem_cons.2 ⟨hx, hall⟩)
      · exact .inr ⟨x :: before, y, after, rfl, List.forall_mem_cons.2 ⟨hx, hbefore⟩, hy⟩
    · exact .inr ⟨[], x, xs, rfl, List.forall_mem_nil p, hx⟩

/-- What has one of the answers of a relation, and only answers of the relation that are its own,
has no other one. -/
theorem eq_iff_of_answers {x : α} {answers : α → Prop} (hexists : ∃ r, answers r)
    (hsound : ∀ r, answers r → x = r) (r : α) : x = r ↔ answers r := by
  constructor
  · rintro rfl
    obtain ⟨r, hr⟩ := hexists
    rw [hsound r hr]
    exact hr
  · exact hsound r

namespace Action

/-! ## Values and states -/

/-- The value and the state that a step leaves behind, or its failure. -/
def yield (x : Action σ α) (s : σ) : Except Error (α × σ) := (·, (x s).state) <$> (x s).result

theorem yield_eq_ok_iff {x : Action σ α} {s s' : σ} {a : α} :
    x.yield s = .ok (a, s') ↔ (x s).result = .ok a ∧ (x s).state = s' := by
  unfold yield
  rw [map_eq_ok_iff]
  constructor
  · rintro ⟨b, hb, he⟩
    cases he
    exact ⟨hb, rfl⟩
  · rintro ⟨ha, rfl⟩
    exact ⟨a, ha, rfl⟩

theorem yield_eq_error_iff {x : Action σ α} {s : σ} {e : Error} :
    x.yield s = .error e ↔ (x s).result = .error e := map_eq_error_iff

theorem yield_bind (x : Action σ α) (f : α → Action σ β) (s : σ) :
    (x >>= f).yield s = x.yield s >>= fun p => (f p.1).yield p.2 := by
  rcases h : x s with ⟨result, s', events⟩
  cases result with
  | error e =>
    simp only [yield, run_bind_of_error h, h]
    rfl
  | ok a =>
    simp only [yield, run_bind_of_ok h, h]
    rfl

theorem yield_bind_eq_ok_iff {x : Action σ α} {f : α → Action σ β} {s s' : σ} {b : β} :
    (x >>= f).yield s = .ok (b, s') ↔
      ∃ a t, x.yield s = .ok (a, t) ∧ (f a).yield t = .ok (b, s') := by
  rw [yield_bind, bind_eq_ok_iff]
  exact Prod.exists

theorem yield_bind_eq_error_iff {x : Action σ α} {f : α → Action σ β} {s : σ} {e : Error} :
    (x >>= f).yield s = .error e ↔
      x.yield s = .error e ∨ ∃ a t, x.yield s = .ok (a, t) ∧ (f a).yield t = .error e := by
  rw [yield_bind]
  cases x.yield s with
  | error e' => simp [bind, Except.bind]
  | ok p => simp [bind, Except.bind, Prod.ext_iff]

/-- `PulseNoise.foldlM_carries` for a loop with a state. -/
theorem foldlM_carries {R : β → β → Prop} {f : β → α → Action σ β} (hrefl : ∀ b, R b b)
    (htrans : ∀ {a b c}, R a b → R b c → R a c)
    (hstep : ∀ {b x b' s s'}, (f b x).yield s = .ok (b', s') → R b b')
    {xs : List α} {b b' : β} {s s' : σ} (h : (xs.foldlM f b).yield s = .ok (b', s')) :
    R b b' := by
  induction xs generalizing b s with
  | nil =>
    cases h
    exact hrefl _
  | cons x xs ih =>
    rw [List.foldlM_cons] at h
    obtain ⟨c, t, hc, hrest⟩ := yield_bind_eq_ok_iff.1 h
    exact htrans (hstep hc) (ih hrest)

/-- A loop fails where one of its steps fails, and those before it do not. -/
theorem yield_foldlM_eq_error_iff {f : β → α → Action σ β} {xs : List α} {b : β} {s : σ}
    {e : Error} :
    (xs.foldlM f b).yield s = .error e ↔
      ∃ before x after c t, xs = before ++ x :: after ∧
        (before.foldlM f b).yield s = .ok (c, t) ∧ (f c x).yield t = .error e := by
  constructor
  · intro h
    induction xs generalizing b s with
    | nil => cases h
    | cons x xs ih =>
      rw [List.foldlM_cons] at h
      rcases yield_bind_eq_error_iff.1 h with h | ⟨c, t, hc, h⟩
      · exact ⟨[], x, xs, b, s, rfl, rfl, h⟩
      · obtain ⟨before, y, after, d, u, rfl, hbefore, hy⟩ := ih h
        refine ⟨x :: before, y, after, d, u, rfl, ?_, hy⟩
        rw [List.foldlM_cons]
        exact yield_bind_eq_ok_iff.2 ⟨c, t, hc, hbefore⟩
  · rintro ⟨before, x, after, c, t, rfl, hbefore, hx⟩
    rw [List.foldlM_append]
    refine yield_bind_eq_error_iff.2 (.inr ⟨c, t, hbefore, ?_⟩)
    rw [List.foldlM_cons]
    exact yield_bind_eq_error_iff.2 (.inl hx)

/-! ## Steps that leave the state alone -/

/-- A step that leaves the state alone and whose result is that of a computation. It may write
down events. -/
def Computes (x : Action σ α) (r : Except Error α) : Prop := ∀ s, x.yield s = (·, s) <$> r

theorem computes_pure (a : α) : Computes (pure a : Action σ α) (.ok a) := fun _ => rfl

theorem computes_ofExcept (x : Except Error α) : Computes (ofExcept x : Action σ α) x :=
  fun _ => rfl

theorem computes_record (level : Level) (text : String) :
    Computes (record level text : Action σ Unit) (.ok ()) := fun _ => rfl

theorem computes_bind {x : Action σ α} {f : α → Action σ β} {r : Except Error α}
    {g : α → Except Error β} (hx : Computes x r) (hf : ∀ a, Computes (f a) (g a)) :
    Computes (x >>= f) (r >>= g) := by
  intro s
  rw [yield_bind, hx s]
  cases r with
  | error e => rfl
  | ok a => exact hf a s

theorem Computes.yield_eq_ok_iff {x : Action σ α} {r : Except Error α} (hx : Computes x r)
    {s s' : σ} {a : α} : x.yield s = .ok (a, s') ↔ r = .ok a ∧ s = s' := by
  rw [hx s, map_eq_ok_iff]
  constructor
  · rintro ⟨b, hb, he⟩
    cases he
    exact ⟨hb, rfl⟩
  · rintro ⟨ha, rfl⟩
    exact ⟨a, ha, rfl⟩

theorem Computes.yield_eq_error_iff {x : Action σ α} {r : Except Error α} (hx : Computes x r)
    {s : σ} {e : Error} : x.yield s = .error e ↔ r = .error e := by
  rw [hx s]
  exact map_eq_error_iff

theorem Computes.result_eq {x : Action σ α} {r : Except Error α} (hx : Computes x r) (s : σ) :
    (x s).result = r := by
  have h := hx s
  unfold yield at h
  cases hresult : (x s).result with
  | error e =>
    rw [hresult] at h
    cases r with
    | error e' => exact congrArg Except.error (Except.error.inj h)
    | ok a => cases h
  | ok a =>
    rw [hresult] at h
    cases r with
    | error e' => cases h
    | ok a' => exact congrArg Except.ok (Prod.mk.inj (Except.ok.inj h)).1

/-- A loop whose steps leave the state alone leaves it alone. -/
theorem computes_foldlM {f : β → α → Action σ β} {g : β → α → Except Error β}
    (hf : ∀ b a, Computes (f b a) (g b a)) (xs : List α) (b : β) :
    Computes (xs.foldlM f b) (xs.foldlM g b) := by
  induction xs generalizing b with
  | nil => exact computes_pure b
  | cons x xs ih =>
    simp only [List.foldlM_cons]
    exact computes_bind (hf b x) ih

/-! ## Results with their states -/

/-- The result of a step and the state that it leaves behind, be it after a failure. -/
def Leaves (x : Action σ α) (s : σ) (r : Except Error α) (s' : σ) : Prop :=
  (x s).result = r ∧ (x s).state = s'

theorem leaves_pure (a : α) (s : σ) : (pure a : Action σ α).Leaves s (.ok a) s := ⟨rfl, rfl⟩

theorem leaves_ofExcept (r : Except Error α) (s : σ) : (ofExcept r : Action σ α).Leaves s r s :=
  ⟨rfl, rfl⟩

theorem leaves_record (level : Level) (text : String) (s : σ) :
    (record level text : Action σ Unit).Leaves s (.ok ()) s := ⟨rfl, rfl⟩

theorem Leaves.bind_error {x : Action σ α} {f : α → Action σ β} {s s' : σ} {e : Error}
    (h : x.Leaves s (.error e) s') : (x >>= f).Leaves s (.error e) s' := by
  obtain ⟨hresult, hstate⟩ := h
  rcases hx : x s with ⟨result, state, events⟩
  rw [hx] at hresult hstate
  subst hresult hstate
  unfold Leaves
  rw [run_bind_of_error hx]
  exact ⟨rfl, rfl⟩

theorem Leaves.bind_ok {x : Action σ α} {f : α → Action σ β} {s t s' : σ} {a : α}
    {r : Except Error β} (hx : x.Leaves s (.ok a) t) (hf : (f a).Leaves t r s') :
    (x >>= f).Leaves s r s' := by
  obtain ⟨hresult, hstate⟩ := hx
  rcases hx : x s with ⟨result, state, events⟩
  rw [hx] at hresult hstate
  subst hresult hstate
  unfold Leaves
  rw [run_bind_of_ok hx]
  exact hf

/-! ## Steps on one state -/

/-- The results of steps one after another, and the state after them. A failure does not end the
run: the next step finds the state that the failed one left. -/
def inTurn : List (Action σ α) → σ → List (Except Error α) × σ
  | [], s => ([], s)
  | x :: xs, s =>
    let reply := x s
    let (results, s') := inTurn xs reply.state
    (reply.result :: results, s')

theorem inTurn_cons {x : Action σ α} {s s' : σ} {r : Except Error α} (h : x.Leaves s r s')
    (xs : List (Action σ α)) :
    inTurn (x :: xs) s = (r :: (inTurn xs s').1, (inTurn xs s').2) := by
  obtain ⟨rfl, rfl⟩ := h
  rfl

theorem inTurn_append (xs ys : List (Action σ α)) (s : σ) :
    (inTurn (xs ++ ys) s).2 = (inTurn ys (inTurn xs s).2).2 := by
  induction xs generalizing s with
  | nil => rfl
  | cons x xs ih => exact ih _

end Action

end PulseNoise
