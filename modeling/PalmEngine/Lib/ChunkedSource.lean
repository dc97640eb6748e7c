import Mathlib

/-!
# Sources that are read in chunks

A source gives what is left of a list, in chunks whose sizes the reader does not choose: a read of at
most so many elements gives fewer of them, and none at the end only. Reading exactly so many collects
chunks. What a reader does with a source agrees with what it does with the list at once, whatever the
chunks are, and a reader that has succeeded on a list does the same on every longer list.
-/

namespace PalmEngine.Lib

variable {α β γ : Type}

/-- What is left of a list, and how many elements less one each of the next reads gives at most. -/
structure ChunkedSource (α : Type) where
  rest : List α
  sizes : ℕ → ℕ

namespace ChunkedSource

/-- Read at most so many elements. -/
def read (n : ℕ) (s : ChunkedSource α) : List α × ChunkedSource α :=
  let size := min n (s.sizes 0 + 1)
  (s.rest.take size, ⟨s.rest.drop size, fun i => s.sizes (i + 1)⟩)

/-- Collect chunks until there are so many elements; a chunk without elements is an error. -/
def readLoop (n : ℕ) (buf : List α) (s : ChunkedSource α) : Option (List α × ChunkedSource α) :=
  if buf.length < n then
    if _h : (s.read (n - buf.length)).1 = [] then none
    else readLoop n (buf ++ (s.read (n - buf.length)).1) (s.read (n - buf.length)).2
  else some (buf, s)
termination_by n - buf.length
decreasing_by
  have hpos : 0 < (s.read (n - buf.length)).1.length := List.length_pos_iff.mpr _h
  simp only [List.length_append]
  omega

/-- Read exactly so many elements. -/
def readExact (n : ℕ) : StateT (ChunkedSource α) Option (List α) := fun s => s.readLoop n []

end ChunkedSource

/-- Take exactly so many elements of a list. -/
def takeExact (n : ℕ) : StateT (List α) Option (List α) := fun l =>
  if n ≤ l.length then some (l.take n, l.drop n) else none

/-- A reader of a source agrees with a reader of lists: it fails alike, and it has the same result and
leaves the same elements. -/
def Agrees (m : StateT (ChunkedSource α) Option β) (p : StateT (List α) Option β) : Prop :=
  ∀ s, (m.run s).map (fun out => (out.1, out.2.rest)) = p.run s.rest

section Agreement

/-- Returning a value agrees. -/
theorem agrees_pure (b : β) :
    Agrees (α := α) (pure b : StateT (ChunkedSource α) Option β) (pure b) := fun _ => rfl

/-- Readers that agree do so one after the other. -/
theorem Agrees.bind {m : StateT (ChunkedSource α) Option β} {p : StateT (List α) Option β}
    {f : β → StateT (ChunkedSource α) Option γ} {g : β → StateT (List α) Option γ}
    (h : Agrees m p) (hrest : ∀ b, Agrees (f b) (g b)) : Agrees (m >>= f) (p >>= g) := by
  intro s
  have hs := h s
  simp only [StateT.run_bind]
  cases hm : m.run s with
  | none =>
    rw [hm] at hs
    rw [← hs]
    rfl
  | some out =>
    rw [hm] at hs
    rw [← hs]
    exact hrest out.1 out.2

/-- The loop has as many elements as are missing, if they are left. -/
theorem ChunkedSource.readLoop_eq (n : ℕ) (buf : List α) (s : ChunkedSource α) :
    (s.readLoop n buf).map (fun out => (out.1, out.2.rest)) =
      if n - buf.length ≤ s.rest.length then
        some (buf ++ s.rest.take (n - buf.length), s.rest.drop (n - buf.length))
      else none := by
  fun_induction readLoop n buf s with
  | case1 buf s hlt hempty =>
    have hrest : s.rest = [] := by
      rw [ChunkedSource.read] at hempty
      rcases List.take_eq_nil_iff.mp hempty with hsize | hrest
      · omega
      · exact hrest
    have hnot : ¬ n - buf.length ≤ s.rest.length := by
      rw [hrest, List.length_nil]
      omega
    rw [if_neg hnot]
    rfl
  | case2 buf s hlt hchunk ih =>
    rw [ih]
    set size := min (n - buf.length) (s.sizes 0 + 1) with hsize
    have hread : s.read (n - buf.length) =
        (s.rest.take size, ⟨s.rest.drop size, fun i => s.sizes (i + 1)⟩) := rfl
    rw [hread]
    simp only [List.length_append, List.length_take, List.length_drop]
    by_cases henough : n - buf.length ≤ s.rest.length
    · have hle : size ≤ s.rest.length := by omega
      have hleft : n - buf.length = size + (n - (buf.length + size)) := by omega
      rw [min_eq_left hle, if_pos (by omega), if_pos henough, List.append_assoc, List.drop_drop,
        ← List.take_add, ← hleft]
    · rw [if_neg henough, if_neg (by omega)]
  | case3 buf s hnot =>
    have hzero : n - buf.length = 0 := by omega
    simp [hzero]

/-- Reading exactly so many elements agrees with taking them. -/
theorem agrees_readExact (n : ℕ) : Agrees (ChunkedSource.readExact (α := α) n) (takeExact n) := by
  intro s
  have hloop := s.readLoop_eq n []
  simpa [ChunkedSource.readExact, takeExact, StateT.run] using hloop

end Agreement

/-- A reader that has succeeded does the same on every longer list. -/
def Extends (p : StateT (List α) Option β) : Prop :=
  ∀ l b r more, p.run l = some (b, r) → p.run (l ++ more) = some (b, r ++ more)

/-- A reader that succeeds leaves at least so many elements fewer. -/
def Consumes (n : ℕ) (p : StateT (List α) Option β) : Prop :=
  ∀ l b r, p.run l = some (b, r) → r.length + n ≤ l.length

section Extension

/-- Returning a value extends. -/
theorem extends_pure (b : β) : Extends (pure b : StateT (List α) Option β) := by
  intro l b' r more h
  obtain ⟨rfl, rfl⟩ : b = b' ∧ l = r := by simpa using h
  rfl

/-- Readers that extend do so one after the other. -/
theorem Extends.bind {p : StateT (List α) Option β} {g : β → StateT (List α) Option γ}
    (h : Extends p) (hrest : ∀ b, Extends (g b)) : Extends (p >>= g) := by
  intro l c r more hrun
  obtain ⟨⟨b, mid⟩, hp, hg⟩ := Option.bind_eq_some_iff.mp hrun
  rw [StateT.run_bind, h l b mid more hp]
  exact hrest b mid c r more hg

/-- Taking exactly so many elements extends. -/
theorem extends_takeExact (n : ℕ) : Extends (takeExact (α := α) n) := by
  intro l b r more h
  simp only [takeExact, StateT.run] at h ⊢
  split at h
  · next hle =>
    obtain ⟨rfl, rfl⟩ := Prod.mk.inj (Option.some.inj h)
    rw [if_pos (by rw [List.length_append]; omega), List.take_append_of_le_length hle,
      List.drop_append_of_le_length hle]
  · cases h

/-- A reader that extends fails on a part of a list of which it leaves nothing. -/
theorem Extends.eq_none {p : StateT (List α) Option β} (h : Extends p) {l more : List α} {b : β}
    (hrun : p.run (l ++ more) = some (b, [])) (hmore : more ≠ []) : p.run l = none := by
  cases hpart : p.run l with
  | none => rfl
  | some out =>
    obtain ⟨b', r⟩ := out
    have hwhole := h l b' r more hpart
    rw [hrun] at hwhole
    have hnil : r ++ more = [] := (Prod.mk.inj (Option.some.inj hwhole)).2.symm
    exact absurd (List.append_eq_nil_iff.mp hnil).2 hmore

/-- Returning a value consumes nothing. -/
theorem consumes_pure (b : β) : Consumes 0 (pure b : StateT (List α) Option β) := by
  intro l b' r h
  obtain ⟨-, rfl⟩ : b = b' ∧ l = r := by simpa using h
  rfl

/-- What two readers consume adds up. -/
theorem Consumes.bind {n k : ℕ} {p : StateT (List α) Option β} {g : β → StateT (List α) Option γ}
    (h : Consumes n p) (hrest : ∀ b, Consumes k (g b)) : Consumes (n + k) (p >>= g) := by
  intro l c r hrun
  obtain ⟨⟨b, mid⟩, hp, hg⟩ := Option.bind_eq_some_iff.mp hrun
  have hfirst := h l b mid hp
  have hsecond := hrest b mid c r hg
  omega

/-- A reader consumes nothing at least. -/
theorem Consumes.zero {n : ℕ} {p : StateT (List α) Option β} (h : Consumes n p) : Consumes 0 p :=
  fun l b r hrun => (Nat.le_add_right _ n).trans (h l b r hrun)

/-- Taking exactly so many elements consumes them. -/
theorem consumes_takeExact (n : ℕ) : Consumes n (takeExact (α := α) n) := by
  intro l b r h
  simp only [takeExact, StateT.run] at h
  split at h
  · obtain ⟨-, rfl⟩ := Prod.mk.inj (Option.some.inj h)
    rw [List.length_drop]
    omega
  · cases h

/-- Taking the front of a list. -/
theorem takeExact_append (front rest : List α) :
    (takeExact front.length).run (front ++ rest) = some (front, rest) := by
  simp [takeExact, StateT.run]

end Extension

end PalmEngine.Lib
