import Mathlib.Logic.Function.Basic
import Mathlib.Tactic.Common

/-!
# Programs: counted loops, faulting code, buses

* `forUp f n s`     `for (i = 0; i < n; i++) s = f i s`; `forUp_rule` is its invariant rule and
                    `forUp_update` the special case that fills a table;
* `Post r P F`      code that ends with a value (`P` holds of it) or in a fault (`F` holds of the
                    state it died in); `post_bind` composes;
* `Bus σ β`         something with addresses that can be read and written, and that may fault;
* `copyByte`, `copyWord`, `copyLoop`   the copy loops: words of four bytes while more than four
                    bytes are left, then single bytes.

`copyLoop_rule` is the invariant rule of the copy loops.  Its invariant `I i ps s` sees the number
`i` of bytes loaded and the bytes `ps` that are loaded and not yet stored (at most one word);
where it is known what is loaded, `copyLoop_transfers` asks for the numbers of loads and stores only.
`Window` says that a bus is a memory on a set of addresses; there the loops copy
(`Window.copyLoop`).
-/

namespace Programs
variable {σ β γ δ : Type*}

/-! ## counted loops -/

def forUp (f : Nat → σ → σ) : Nat → σ → σ
  | 0, s => s
  | n + 1, s => f n (forUp f n s)

theorem forUp_zero (f : Nat → σ → σ) (s : σ) : forUp f 0 s = s := rfl
theorem forUp_succ (f : Nat → σ → σ) (n : Nat) (s : σ) :
    forUp f (n + 1) s = f n (forUp f n s) := rfl

theorem forUp_rule {I : Nat → σ → Prop} {f : Nat → σ → σ} {n : Nat} {s : σ} (h0 : I 0 s)
    (hs : ∀ i s, i < n → I i s → I (i + 1) (f i s)) : I n (forUp f n s) := by
  induction n with
  | zero => exact h0
  | succ n ih => exact hs n _ (Nat.lt_succ_self n) (ih fun i s hi => hs i s (Nat.lt_succ_of_lt hi))

theorem forUp_eq_foldl (f : Nat → σ → σ) (n : Nat) (s : σ) :
    forUp f n s = (List.range n).foldl (fun s i => f i s) s := by
  induction n with
  | zero => rfl
  | succ n ih =>
    rw [forUp_succ, ih, List.range_succ, List.foldl_append]
    rfl

theorem forUp_snoc (f : Nat → β) (n : Nat) (l : List β) :
    forUp (fun i l => l ++ [f i]) n l = l ++ (List.range n).map f := by
  induction n with
  | zero => exact (List.append_nil l).symm
  | succ n ih =>
    rw [forUp_succ, ih, List.range_succ, List.map_append, List.append_assoc]
    rfl

/-- a range of a table grows by one entry -/
theorem ite_range_succ {g : Nat → β} {a b : β} {base n x : Nat} (ha : a = g (base + n)) :
    (if x = base + n then a else if base ≤ x ∧ x < base + n then g x else b) =
      if base ≤ x ∧ x < base + (n + 1) then g x else b := by
  by_cases hx : x = base + n
  · have h : base ≤ x ∧ x < base + (n + 1) := by omega
    rw [if_pos hx, if_pos h, ha, hx]
  · have h : (base ≤ x ∧ x < base + n) ↔ (base ≤ x ∧ x < base + (n + 1)) := by omega
    rw [if_neg hx]
    simp only [h]

/-- a loop that writes `g i` at `base + i` -/
theorem forUp_update (t : Nat → β) (g : Nat → β) (base n x : Nat) :
    forUp (fun i t => Function.update t (base + i) (g i)) n t x =
      if base ≤ x ∧ x < base + n then g (x - base) else t x := by
  induction n with
  | zero =>
    have h : ¬ (base ≤ x ∧ x < base + 0) := by omega
    rw [forUp_zero, if_neg h]
  | succ n ih =>
    have e : g n = g (base + n - base) := by rw [Nat.add_sub_cancel_left]
    rw [forUp_succ, Function.update_apply, ih]
    exact ite_range_succ (g := fun x => g (x - base)) e

/-! ## faulting code -/

def Post (r : Except σ γ) (P : γ → Prop) (F : σ → Prop) : Prop :=
  match r with
  | .ok a => P a
  | .error s => F s

@[simp] theorem post_ok (a : γ) (P : γ → Prop) (F : σ → Prop) :
    Post (.ok a : Except σ γ) P F ↔ P a := Iff.rfl
@[simp] theorem post_error (s : σ) (P : γ → Prop) (F : σ → Prop) :
    Post (.error s : Except σ γ) P F ↔ F s := Iff.rfl

theorem post_bind (r : Except σ γ) (f : γ → Except σ δ) (P : δ → Prop) (F : σ → Prop) :
    Post (r.bind f) P F ↔ Post r (fun a => Post (f a) P F) F := by
  cases r <;> rfl

theorem map_eq_ok {r : Except σ γ} {f : γ → δ} {b : δ} :
    r.map f = .ok b ↔ ∃ a, r = .ok a ∧ f a = b := by
  cases r with
  | ok a =>
    refine ⟨fun h => ⟨a, rfl, Except.ok.inj h⟩, fun h => ?_⟩
    obtain ⟨a', ha, hb⟩ := h
    cases ha
    exact congrArg Except.ok hb
  | error s =>
    refine ⟨fun h => (nomatch h), fun h => ?_⟩
    obtain ⟨a', ha, -⟩ := h
    cases ha

theorem Post.mono {r : Except σ γ} {P Q : γ → Prop} {F G : σ → Prop} (h : Post r P F)
    (hP : ∀ a, P a → Q a) (hF : ∀ s, F s → G s) : Post r Q G := by
  cases r with
  | ok a => exact hP a h
  | error s => exact hF s h

/-- code that cannot fault returns -/
theorem Post.ok {r : Except σ γ} {P : γ → Prop} (h : Post r P fun _ => False) :
    ∃ a, r = .ok a ∧ P a := by
  cases r with
  | ok a => exact ⟨a, rfl, h⟩
  | error s => exact h.elim

/-! ## buses -/

structure Bus (σ β : Type*) where
  load : Nat → σ → Except σ (β × σ)
  store : Nat → β → σ → Except σ σ

/-- `*q1++ = *p1++` -/
def copyByte (B : Bus σ β) (p q : Nat) (s : σ) : Except σ σ :=
  (B.load p s).bind fun (x, s) => B.store q x s

/-- `*q++ = *p++`, a word of four bytes -/
def copyWord (B : Bus σ β) (p q : Nat) (s : σ) : Except σ σ :=
  (B.load p s).bind fun (x0, s) => (B.load (p + 1) s).bind fun (x1, s) =>
    (B.load (p + 2) s).bind fun (x2, s) => (B.load (p + 3) s).bind fun (x3, s) =>
      (B.store q x0 s).bind fun s => (B.store (q + 1) x1 s).bind fun s =>
        (B.store (q + 2) x2 s).bind fun s => B.store (q + 3) x3 s

/-- `while (size > 0)` -/
def copyBytes (B : Bus σ β) : Nat → Nat → Nat → σ → Except σ σ
  | 0, _, _, s => .ok s
  | n + 1, p, q, s => (copyByte B p q s).bind fun s => copyBytes B n (p + 1) (q + 1) s

/-- `while (size > 4)`, then `while (size > 0)` -/
def copyLoop (B : Bus σ β) : Nat → Nat → Nat → σ → Except σ σ
  | n + 5, p, q, s => (copyWord B p q s).bind fun s => copyLoop B (n + 1) (p + 4) (q + 4) s
  | n, p, q, s => copyBytes B n p q s

theorem copyLoop_le (B : Bus σ β) {n : Nat} (hn : n ≤ 4) (p q : Nat) (s : σ) :
    copyLoop B n p q s = copyBytes B n p q s :=
  copyLoop.eq_2 B n p q s fun m h => by omega

section
variable {B : Bus σ β} {p q n : Nat} {I : Nat → List β → σ → Prop} {F : σ → Prop}

/-- one load and one store keep the invariant `I` of a copy from `p` to `q` -/
structure Steps (B : Bus σ β) (p q n : Nat) (I : Nat → List β → σ → Prop) (F : σ → Prop) :
    Prop where
  load : ∀ i ps s, i < n → ps.length < 4 → I i ps s →
    Post (B.load (p + i) s) (fun a => I (i + 1) (ps ++ [a.1]) a.2) F
  store : ∀ j x ps s, j < n → I (j + ps.length + 1) (x :: ps) s →
    Post (B.store (q + j) x s) (I (j + ps.length + 1) ps) F

theorem Steps.copyByte (h : Steps B p q n I F) {i : Nat} (hi : i < n) {s : σ} (hs : I i [] s) :
    Post (copyByte B (p + i) (q + i) s) (I (i + 1) []) F := by
  unfold Programs.copyByte
  rw [post_bind]
  refine (h.load i [] s hi (by simp) hs).mono (fun a ha => ?_) fun _ => id
  exact h.store i a.1 [] a.2 hi ha

theorem Steps.copyWord (h : Steps B p q n I F) {i : Nat} (hi : i + 4 ≤ n) {s : σ}
    (hs : I i [] s) : Post (copyWord B (p + i) (q + i) s) (I (i + 4) []) F := by
  unfold Programs.copyWord
  rw [post_bind]
  refine (h.load i [] s (by omega) (by simp) hs).mono (fun a0 h0 => ?_) fun _ => id
  rw [post_bind]
  refine (h.load (i + 1) _ _ (by omega) (by simp) h0).mono (fun a1 h1 => ?_) fun _ => id
  rw [post_bind]
  refine (h.load (i + 2) _ _ (by omega) (by simp) h1).mono (fun a2 h2 => ?_) fun _ => id
  rw [post_bind]
  refine (h.load (i + 3) _ _ (by omega) (by simp) h2).mono (fun a3 h3 => ?_) fun _ => id
  rw [post_bind]
  refine (h.store i a0.1 [a1.1, a2.1, a3.1] _ (by omega) h3).mono (fun s0 g0 => ?_) fun _ => id
  rw [post_bind]
  refine (h.store (i + 1) a1.1 [a2.1, a3.1] _ (by omega) g0).mono (fun s1 g1 => ?_) fun _ => id
  rw [post_bind]
  refine (h.store (i + 2) a2.1 [a3.1] _ (by omega) g1).mono (fun s2 g2 => ?_) fun _ => id
  exact h.store (i + 3) a3.1 [] _ (by omega) g2

theorem Steps.copyBytes (h : Steps B p q n I F) :
    ∀ (m i : Nat), i + m = n → ∀ s, I i [] s →
      Post (copyBytes B m (p + i) (q + i) s) (I n []) F := by
  intro m
  induction m with
  | zero =>
    intro i hi s hs
    have e : i = n := by omega
    exact e ▸ hs
  | succ m ih =>
    intro i hi s hs
    rw [Programs.copyBytes, post_bind]
    exact (h.copyByte (by omega) hs).mono (fun s' hs' => ih (i + 1) (by omega) s' hs') fun _ => id

/-- **The invariant rule of the copy loops.** -/
theorem copyLoop_rule (h : Steps B p q n I F) {s : σ} (hs : I 0 [] s) :
    Post (copyLoop B n p q s) (I n []) F := by
  -- the loop has `m` bytes left when `i` bytes are copied
  suffices hw : ∀ (m i : Nat), i + m = n → ∀ s, I i [] s →
      Post (copyLoop B m (p + i) (q + i) s) (I n []) F from hw n 0 (Nat.zero_add n) s hs
  intro m
  induction m using Nat.strongRecOn with
  | ind m ih =>
    intro i hi s hs
    by_cases hm : m ≤ 4
    · rw [copyLoop_le B hm]
      exact h.copyBytes m i hi s hs
    · obtain ⟨k, rfl⟩ : ∃ k, m = k + 5 := ⟨m - 5, by omega⟩
      rw [copyLoop, post_bind]
      refine (h.copyWord (by omega) hs).mono (fun s' hs' => ?_) fun _ => id
      exact ih (k + 1) (by omega) (i + 4) (by omega) s' hs'

end

/-- a copy that returns has made every one of its stores -/
theorem copyLoop_stores {B : Bus σ β} {good : σ → Prop} {p q n : Nat} {s s' : σ}
    (hl : ∀ a s x s', good s → B.load a s = .ok (x, s') → good s')
    (hs : ∀ a x s s', good s → B.store a x s = .ok s' → good s') (h0 : good s)
    (h : copyLoop B n p q s = .ok s') {j : Nat} (hj : j < n) :
    ∃ x s₁ s₂, good s₁ ∧ B.store (q + j) x s₁ = .ok s₂ := by
  let I : Nat → List β → σ → Prop := fun i ps s' => good s' ∧ ps.length ≤ i ∧
    ∀ k, k < i - ps.length → ∃ x s₁ s₂, good s₁ ∧ B.store (q + k) x s₁ = .ok s₂
  have hst : Steps B p q n I fun _ => True := by
    refine ⟨fun i ps s₁ _ _ hI => ?_, fun k x ps s₁ _ hI => ?_⟩
    · obtain ⟨hg, hle, hk⟩ := hI
      cases hr : B.load (p + i) s₁ with
      | error e => trivial
      | ok a =>
        have e : i + 1 - (ps ++ [a.1]).length = i - ps.length := by simp
        refine ⟨hl _ _ _ _ hg hr, by simp; omega, ?_⟩
        rw [e]
        exact hk
    · obtain ⟨hg, hle, hk⟩ := hI
      cases hr : B.store (q + k) x s₁ with
      | error e => trivial
      | ok s₂ =>
        rw [List.length_cons] at hk
        refine ⟨hs _ _ _ _ hg hr, by omega, fun m hm => ?_⟩
        by_cases hmk : m = k
        · exact ⟨x, s₁, s₂, hg, hmk ▸ hr⟩
        · exact hk m (by omega)
  have h1 := copyLoop_rule hst (s := s) ⟨h0, by simp, fun k hk => by simp at hk⟩
  rw [h] at h1
  exact h1.2.2 j hj

/-- A copy of the values `v`, of which `i` are loaded and `j` are stored. -/
structure Transfers (B : Bus σ β) (p q n : Nat) (v : Nat → β) (J : Nat → Nat → σ → Prop)
    (F : σ → Prop) : Prop where
  load : ∀ i j s, i < n → j ≤ i → J i j s →
    Post (B.load (p + i) s) (fun a => a.1 = v i ∧ J (i + 1) j a.2) F
  store : ∀ i j s, j < i → i ≤ n → J i j s → Post (B.store (q + j) (v j) s) (J i (j + 1)) F

/-- the values that are loaded and not yet stored are the last ones -/
theorem Transfers.steps {B : Bus σ β} {p q n : Nat} {v : Nat → β} {J : Nat → Nat → σ → Prop}
    {F : σ → Prop} (h : Transfers B p q n v J F) :
    Steps B p q n (fun i ps s => ps.length ≤ i ∧ i ≤ n ∧
      ps = (List.range' (i - ps.length) ps.length).map v ∧ J i (i - ps.length) s) F := by
  constructor
  · intro i ps s hi _ hI
    obtain ⟨hle, -, hps, hJ⟩ := hI
    refine (h.load i _ s hi (Nat.sub_le i ps.length) hJ).mono (fun a ha => ?_) fun _ => id
    obtain ⟨hv, hJ'⟩ := ha
    have hlen : (ps ++ [a.1]).length = ps.length + 1 := by simp
    have hlast : i - ps.length + ps.length = i := by omega
    rw [hlen, Nat.add_sub_add_right, List.range'_concat, List.map_append, ← hps, Nat.one_mul, hlast,
      hv]
    exact ⟨by omega, hi, rfl, hJ'⟩
  · intro j x ps s _ hI
    have hlen : (x :: ps).length = ps.length + 1 := rfl
    have hj : j + ps.length + 1 - (ps.length + 1) = j := by omega
    have hj' : j + ps.length + 1 - ps.length = j + 1 := by omega
    rw [hlen, hj, List.range'_succ, List.map_cons] at hI
    obtain ⟨-, hn, hps, hJ⟩ := hI
    obtain ⟨hx, hps'⟩ := List.cons.inj hps
    rw [hx]
    refine (h.store _ j s (by omega) hn hJ).mono (fun s' hs' => ?_) fun _ => id
    rw [hj']
    exact ⟨by omega, hn, hps', hs'⟩

theorem copyLoop_transfers {B : Bus σ β} {p q n : Nat} {v : Nat → β} {J : Nat → Nat → σ → Prop}
    {F : σ → Prop} (h : Transfers B p q n v J F) {s : σ} (hs : J 0 0 s) :
    Post (copyLoop B n p q s) (J n n) F :=
  (copyLoop_rule h.steps ⟨Nat.le_refl 0, Nat.zero_le n, rfl, hs⟩).mono (fun _ hs' => hs'.2.2.2) fun _ => id

/-! ## windows -/

/-- In the states `good`, the addresses `S` and `D` of the bus read as `v`, a store to `D` is `put`
and a load from `S` is `touch` (it may leave a trace). -/
structure Window (B : Bus σ β) (S D : Nat → Prop) (good : σ → Prop) (v : σ → Nat → β)
    (touch : Nat → σ → σ) (put : Nat → β → σ → σ) : Prop where
  load : ∀ a s, good s → S a → B.load a s = .ok (v s a, touch a s)
  store : ∀ a x s, good s → D a → B.store a x s = .ok (put a x s)
  good_touch : ∀ a s, good s → S a → good (touch a s)
  good_put : ∀ a x s, good s → D a → good (put a x s)
  view_touch : ∀ a s b, good s → S a → S b ∨ D b → v (touch a s) b = v s b
  view_put : ∀ a x s b, good s → D a → S b ∨ D b → v (put a x s) b = if b = a then x else v s b

/-- **The copy loops copy.**  The target lies below the source or apart from it; `J` is any
property that the loads from the source and the stores to the target keep. -/
theorem Window.copyLoop {B : Bus σ β} {S D : Nat → Prop} {good : σ → Prop} {v : σ → Nat → β}
    {touch : Nat → σ → σ} {put : Nat → β → σ → σ} (W : Window B S D good v touch put)
    {p q n : Nat} (hp : ∀ i, i < n → S (p + i)) (hq : ∀ i, i < n → D (q + i))
    (hpq : q ≤ p ∨ p + n ≤ q) {s : σ} (hs : good s) (J : σ → Prop) (hJ : J s)
    (hJt : ∀ i s, i < n → good s → J s → J (touch (p + i) s))
    (hJp : ∀ i x s, i < n → good s → J s → J (put (q + i) x s)) :
    ∃ s', Programs.copyLoop B n p q s = .ok s' ∧ good s' ∧ J s' ∧
      ∀ b, S b ∨ D b → v s' b = if q ≤ b ∧ b < q + n then v s (p + (b - q)) else v s b := by
  -- after `j` stores the target holds the first `j` bytes of the source
  have ht : Transfers B p q n (fun i => v s (p + i)) (fun _ j s' => good s' ∧ J s' ∧
      ∀ b, S b ∨ D b → v s' b = if q ≤ b ∧ b < q + j then v s (p + (b - q)) else v s b)
      fun _ => False := by
    constructor
    · intro i j s' hi hji hI
      obtain ⟨hg, hj, hv⟩ := hI
      rw [W.load _ _ hg (hp i hi), post_ok]
      refine ⟨?_, W.good_touch _ _ hg (hp i hi), hJt i s' hi hg hj, fun b hb => ?_⟩
      · -- the source byte is not yet overwritten
        have h : ¬ (q ≤ p + i ∧ p + i < q + j) := by omega
        rw [hv _ (Or.inl (hp i hi)), if_neg h]
      · rw [W.view_touch _ _ _ hg (hp i hi) hb]
        exact hv b hb
    · intro i j s' hji hi hI
      obtain ⟨hg, hj, hv⟩ := hI
      have hjn : j < n := by omega
      rw [W.store _ _ _ hg (hq j hjn), post_ok]
      refine ⟨W.good_put _ _ _ hg (hq j hjn), hJp j _ s' hjn hg hj, fun b hb => ?_⟩
      rw [W.view_put _ _ _ _ hg (hq j hjn) hb, hv b hb]
      by_cases hbj : b = q + j
      · have h : q ≤ b ∧ b < q + (j + 1) := by omega
        have e : b - q = j := by omega
        rw [if_pos hbj, if_pos h, e]
      · have h : (q ≤ b ∧ b < q + j) ↔ (q ≤ b ∧ b < q + (j + 1)) := by omega
        rw [if_neg hbj]
        simp only [h]
  exact (copyLoop_transfers ht ⟨hs, hJ, fun b _ => (if_neg (by omega)).symm⟩).ok

end Programs
