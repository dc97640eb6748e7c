import PalmEngine.Lib.ChunkedSource

/-!
# Sources whose reads may time out

What arrives at a source are elements and times at which a read that waits for an element raises. A
source gives elements that are there as they are asked for. A reader of such a source follows a
reader of lists as long as the elements that the latter needs arrive without an interruption.
-/

namespace PalmEngine.Lib

/-- What arrives at a source: an element, or none for so long that a read raises. -/
inductive Arrival (α : Type) where
  | item (a : α)
  | timeout
  deriving DecidableEq, Repr

/-- Elements that arrive first are the first ones of all that arrive without an interruption. -/
theorem eq_append_of_map_item {α : Type} {front available : List α} {more rest : List (Arrival α)}
    (h : front.map .item ++ more = available.map .item ++ rest)
    (hle : front.length ≤ available.length) :
    ∃ back, available = front ++ back ∧ more = back.map .item ++ rest := by
  induction front generalizing available with
  | nil => exact ⟨available, rfl, h⟩
  | cons a front ih =>
    cases available with
    | nil => simp at hle
    | cons b available =>
      simp only [List.map_cons, List.cons_append, List.cons.injEq, Arrival.item.injEq] at h
      obtain ⟨back, rfl, hmore⟩ := ih h.2 (by simpa using hle)
      exact ⟨back, by rw [h.1, List.cons_append], hmore⟩

/-- Why a read raises. -/
inductive ReadFault where
  | timeout
  | closed
  deriving DecidableEq, Repr

/-- A reader that raises or returns, in a state that it leaves in either case. -/
abbrev TimedReader (σ β : Type) := ExceptT ReadFault (StateM σ) β

/-- A state from which elements are read. What is still to arrive says what a read gives: elements
that are there, an interruption if one is next, and nothing at the end. -/
structure InterruptedSource (σ α : Type) where
  /-- What is still to arrive. -/
  arrivals : σ → List (Arrival α)
  /-- Read at most so many elements. -/
  read : ℕ → σ → Except ReadFault (List α) × σ
  read_available : ∀ {n : ℕ} {s : σ} {available : List α} {rest : List (Arrival α)},
    arrivals s = available.map .item ++ rest → n ≤ available.length →
      ∃ s', read n s = (.ok (available.take n), s') ∧
        arrivals s' = (available.drop n).map .item ++ rest
  read_timeout : ∀ {n : ℕ} {s : σ} {rest : List (Arrival α)},
    arrivals s = .timeout :: rest → 0 < n →
      ∃ s', read n s = (.error .timeout, s') ∧ arrivals s' = rest
  read_end : ∀ {n : ℕ} {s : σ}, arrivals s = [] → 0 < n → ∃ s', read n s = (.ok [], s') ∧ arrivals s' = []
  length_read : ∀ {n : ℕ} {s s' : σ} {chunk : List α}, read n s = (.ok chunk, s') →
    (arrivals s').length + chunk.length ≤ (arrivals s).length

variable {σ α β γ : Type}

namespace InterruptedSource

variable (S : InterruptedSource σ α)

/-- Collect chunks until there are so many elements; a chunk without elements is an error. -/
def readLoop (n : ℕ) (buf : List α) (s : σ) : Except ReadFault (List α) × σ :=
  if buf.length < n then
    match S.read (n - buf.length) s with
    | (.error e, s') => (.error e, s')
    | (.ok [], s') => (.error .closed, s')
    | (.ok (a :: chunk), s') => readLoop n (buf ++ a :: chunk) s'
  else (.ok buf, s)
termination_by n - buf.length
decreasing_by
  simp only [List.length_append, List.length_cons]
  omega

/-- Read exactly so many elements. -/
def readExact (n : ℕ) : TimedReader σ (List α) := fun s => S.readLoop n [] s

/-- A reader follows a reader of lists: of elements that arrive without an interruption and are
enough for the latter it makes the same, and it leaves the same. -/
def Follows (m : TimedReader σ β) (p : StateT (List α) Option β) : Prop :=
  ∀ s available rest b left, S.arrivals s = available.map .item ++ rest →
    p.run available = some (b, left) →
      ∃ s', m s = (.ok b, s') ∧ S.arrivals s' = left.map .item ++ rest

/-- A reader that returns leaves at least so many arrivals fewer. -/
def Shrinks (n : ℕ) (m : TimedReader σ β) : Prop :=
  ∀ s b s', m s = (.ok b, s') → (S.arrivals s').length + n ≤ (S.arrivals s).length

section Rules

variable {S}

/-- What comes after a reader is read if it returns. -/
theorem bind_ok {m : TimedReader σ β} {f : β → TimedReader σ γ} {s s' : σ} {b : β}
    (h : m s = (.ok b, s')) : (m >>= f) s = f b s' := by
  change (ExceptT.bindCont f (m s).1) (m s).2 = f b s'
  rw [h]
  rfl

/-- If a reader raises, nothing comes after it. -/
theorem bind_error {m : TimedReader σ β} {s s' : σ} {e : ReadFault} (h : m s = (.error e, s'))
    (f : β → TimedReader σ γ) : (m >>= f) s = (.error e, s') := by
  change (ExceptT.bindCont f (m s).1) (m s).2 = (.error e, s')
  rw [h]
  rfl

/-- Returning a value follows. -/
theorem follows_pure (b : β) : S.Follows (pure b) (pure b) := by
  intro s available rest b' left harrivals hrun
  obtain ⟨rfl, rfl⟩ : b = b' ∧ available = left := by simpa using hrun
  exact ⟨s, rfl, harrivals⟩

/-- Readers that follow do so one after the other. -/
theorem Follows.bind {m : TimedReader σ β} {p : StateT (List α) Option β}
    {f : β → TimedReader σ γ} {g : β → StateT (List α) Option γ}
    (h : S.Follows m p) (hrest : ∀ b, S.Follows (f b) (g b)) :
    S.Follows (m >>= f) (p >>= g) := by
  intro s available rest c left harrivals hrun
  obtain ⟨⟨b, mid⟩, hp, hg⟩ := Option.bind_eq_some_iff.mp hrun
  obtain ⟨s', hm, hmid⟩ := h s available rest b mid harrivals hp
  obtain ⟨s'', hf, hleft⟩ := hrest b s' mid rest c left hmid hg
  exact ⟨s'', (bind_ok hm).trans hf, hleft⟩

/-- Reading exactly so many elements follows taking them. -/
theorem follows_readExact (n : ℕ) : S.Follows (S.readExact n) (takeExact n) := by
  intro s available rest b left harrivals hrun
  simp only [takeExact, StateT.run] at hrun
  split at hrun
  · next hle =>
    obtain ⟨rfl, rfl⟩ := Prod.mk.inj (Option.some.inj hrun)
    unfold readExact
    rcases Nat.eq_zero_or_pos n with rfl | hpos
    · refine ⟨s, ?_, harrivals⟩
      rw [readLoop, List.length_nil, if_neg (lt_irrefl 0), List.take_zero]
    · obtain ⟨s', hread, hleft⟩ := S.read_available harrivals hle
      refine ⟨s', ?_, hleft⟩
      rw [readLoop, List.length_nil, if_pos hpos, Nat.sub_zero, hread]
      cases htake : available.take n with
      | nil =>
        have hlength := congrArg List.length htake
        rw [List.length_take, min_eq_left hle, List.length_nil] at hlength
        omega
      | cons a chunk =>
        have hlength := congrArg List.length htake
        rw [List.length_take, min_eq_left hle] at hlength
        simp only [List.nil_append]
        rw [readLoop, if_neg (by omega)]
  · cases hrun

/-- An interruption that is next is raised. -/
theorem readExact_timeout {n : ℕ} {s : σ} {rest : List (Arrival α)}
    (h : S.arrivals s = .timeout :: rest) (hpos : 0 < n) :
    ∃ s', S.readExact n s = (.error .timeout, s') ∧ S.arrivals s' = rest := by
  obtain ⟨s', hread, hrest⟩ := S.read_timeout h hpos
  refine ⟨s', ?_, hrest⟩
  unfold readExact
  rw [readLoop, List.length_nil, if_pos hpos, Nat.sub_zero, hread]

/-- At the end a reader finds the source closed. -/
theorem readExact_end {n : ℕ} {s : σ} (h : S.arrivals s = []) (hpos : 0 < n) :
    ∃ s', S.readExact n s = (.error .closed, s') ∧ S.arrivals s' = [] := by
  obtain ⟨s', hread, hrest⟩ := S.read_end h hpos
  refine ⟨s', ?_, hrest⟩
  unfold readExact
  rw [readLoop, List.length_nil, if_pos hpos, Nat.sub_zero, hread]

/-- Returning a value leaves all arrivals. -/
theorem shrinks_pure (b : β) : S.Shrinks 0 (pure b) := by
  intro s b' s' h
  obtain ⟨-, rfl⟩ := Prod.mk.inj h
  exact le_rfl

/-- What two readers take adds up. -/
theorem Shrinks.bind {n k : ℕ} {m : TimedReader σ β} {f : β → TimedReader σ γ}
    (h : S.Shrinks n m) (hrest : ∀ b, S.Shrinks k (f b)) : S.Shrinks (n + k) (m >>= f) := by
  intro s c s'' hrun
  rcases hm : m s with ⟨e | b, s'⟩
  · rw [bind_error hm] at hrun
    cases hrun
  · rw [bind_ok hm] at hrun
    have hfirst := h s b s' hm
    have hsecond := hrest b s' c s'' hrun
    omega

/-- A reader takes no arrival at least. -/
theorem Shrinks.zero {n : ℕ} {m : TimedReader σ β} (h : S.Shrinks n m) : S.Shrinks 0 m :=
  fun s b s' hrun => (Nat.le_add_right _ n).trans (h s b s' hrun)

/-- The loop takes what is missing. -/
theorem length_readLoop (n : ℕ) (buf : List α) (s : σ) {out : List α} {s' : σ}
    (h : S.readLoop n buf s = (.ok out, s')) :
    (S.arrivals s').length + (n - buf.length) ≤ (S.arrivals s).length := by
  fun_induction readLoop S n buf s with
  | case1 | case2 => cases h
  | case3 buf s hlt a chunk mid hread ih =>
    have hrest := ih h
    have hchunk := S.length_read hread
    simp only [List.length_append, List.length_cons] at hrest hchunk
    omega
  | case4 buf s hnot =>
    obtain ⟨-, rfl⟩ := Prod.mk.inj h
    omega

/-- Reading exactly so many elements takes them. -/
theorem shrinks_readExact (n : ℕ) : S.Shrinks n (S.readExact n) :=
  fun s _ _ h => length_readLoop n [] s h

end Rules

end InterruptedSource

end PalmEngine.Lib
