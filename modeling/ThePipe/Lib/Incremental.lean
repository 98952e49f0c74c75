import Mathlib.Data.List.Basic
import Mathlib.Logic.Basic

/-!
# Streams of values and incremental parsers

A *grammar* says what stands at the front of a stream of symbols: nothing yet, the beginning of a
value, a complete value, or a syntax error.  `Grammar.cut` takes a whole stream apart into its
successive values and the way it ends.

A *parser* is fed a stream in pieces.  `Parser.Implements` is the one law that makes its answers
independent of where the pieces are cut: whatever it has been fed without a verdict, the next
answer is the one the grammar gives for everything fed so far.

* `Grammar.cut_append_of_value` : values already complete are not changed by what follows them;
* `Parser.Implements.front_isOpen` : a parser without a verdict has seen no complete value;
* `chunk_emits` : a printer of prepared text emits it whole, whatever the size of the pieces;
* `Automaton.implements` : a parser that reads symbol by symbol satisfies the law.
-/

set_option autoImplicit false

namespace ThePipe.Lib

variable {σ β V E : Type*}

/-! ## Grammars -/

/-- What stands at the front of a stream. -/
inductive Front (V E : Type*) where
  /-- Nothing but what may stand between two values. -/
  | blank
  /-- The beginning of a value, which is not complete. -/
  | inside
  /-- The first `n` symbols end with the value `v`, and no fewer do. -/
  | value (n : ℕ) (v : V)
  /-- A syntax error. -/
  | bad (e : E)
  deriving DecidableEq

/-- No verdict yet: neither a complete value nor an error. -/
def Front.isOpen : Front V E → Bool
  | .blank | .inside => true
  | .value _ _ | .bad _ => false

/-- A grammar, given by the front of every stream.  A verdict is reached at one symbol and does
not depend on anything after it. -/
structure Grammar (β V E : Type*) where
  front : List β → Front V E
  front_nil : front [] = .blank
  value_le : ∀ {l n v}, front l = .value n v → n ≤ l.length
  value_take : ∀ {l n v}, front l = .value n v → front (l.take n) = .value n v
  value_append : ∀ {l n v}, front l = .value n v → ∀ m, front (l ++ m) = .value n v
  bad_append : ∀ {l e}, front l = .bad e → ∀ m, front (l ++ m) = .bad e

/-- How a stream ends once its complete values have been taken off. -/
inductive Ending (E : Type*) where
  | blank
  | inside
  | bad (e : E)

namespace Grammar

variable (G : Grammar β V E)

theorem value_pos {l : List β} {n : ℕ} {v : V} (h : G.front l = .value n v) : 0 < n := by
  rcases Nat.eq_zero_or_pos n with rfl | hn
  · have h0 := G.value_take h
    rw [List.take_zero, G.front_nil] at h0
    cases h0
  · exact hn

theorem lt_of_value_append {l m : List β} {n : ℕ} {v : V} (ho : (G.front l).isOpen)
    (h : G.front (l ++ m) = .value n v) : l.length < n := by
  by_contra hn
  have htake : (l ++ m).take n = l.take n := List.take_append_of_le_length (by omega)
  have h0 := G.value_take h
  rw [htake] at h0
  have hl := G.value_append h0 (l.drop n)
  rw [List.take_append_drop] at hl
  rw [hl] at ho
  cases ho

/-- The successive values of a stream, and how it ends. -/
def cut (l : List β) : List V × Ending E :=
  match _h : G.front l with
  | .value n v =>
    let rest := cut (l.drop n)
    (v :: rest.1, rest.2)
  | .blank => ([], .blank)
  | .inside => ([], .inside)
  | .bad e => ([], .bad e)
termination_by l.length
decreasing_by
  have := G.value_pos _h
  have := G.value_le _h
  simp only [List.length_drop]
  omega

variable {G} {l m : List β}

theorem cut_of_value {n : ℕ} {v : V} (h : G.front l = .value n v) :
    G.cut l = (v :: (G.cut (l.drop n)).1, (G.cut (l.drop n)).2) := by
  rw [cut]
  split <;> simp_all

theorem cut_of_blank (h : G.front l = .blank) : G.cut l = ([], .blank) := by
  rw [cut]
  split <;> simp_all

theorem cut_of_inside (h : G.front l = .inside) : G.cut l = ([], .inside) := by
  rw [cut]
  split <;> simp_all

theorem cut_of_bad {e : E} (h : G.front l = .bad e) : G.cut l = ([], .bad e) := by
  rw [cut]
  split <;> simp_all

theorem cut_nil : G.cut [] = ([], .blank) := cut_of_blank G.front_nil

/-- A complete value at the front of a stream is taken off, whatever follows it. -/
theorem cut_append_of_value {n : ℕ} {v : V} (h : G.front l = .value n v) (m : List β) :
    G.cut (l ++ m) = (v :: (G.cut (l.drop n ++ m)).1, (G.cut (l.drop n ++ m)).2) := by
  rw [cut_of_value (G.value_append h m), List.drop_append_of_le_length (G.value_le h)]

/-- A stream made of pieces that are each exactly one value is cut into these values. -/
theorem cut_flatten {α : Type*} (f : α → List β) (v : α → V) {as : List α}
    (h : ∀ a ∈ as, G.front (f a) = .value (f a).length (v a)) :
    G.cut (as.map f).flatten = (as.map v, .blank) := by
  induction as with
  | nil => exact cut_nil
  | cons a as ih =>
    have ha := h a (List.mem_cons_self ..)
    have ih := ih fun b hb => h b (List.mem_cons_of_mem _ hb)
    rw [List.map_cons, List.flatten_cons, cut_append_of_value ha, List.drop_length,
      List.nil_append, ih, List.map_cons]

theorem cut_flatten_append {α : Type*} (f : α → List β) (v : α → V) {as : List α}
    (h : ∀ a ∈ as, G.front (f a) = .value (f a).length (v a)) (m : List β) :
    G.cut ((as.map f).flatten ++ m) = (as.map v ++ (G.cut m).1, (G.cut m).2) := by
  induction as with
  | nil => rfl
  | cons a as ih =>
    have ha := h a (List.mem_cons_self ..)
    have ih := ih fun b hb => h b (List.mem_cons_of_mem _ hb)
    rw [List.map_cons, List.flatten_cons, List.append_assoc, cut_append_of_value ha,
      List.drop_length, List.nil_append, ih, List.map_cons, List.cons_append]

/-- Nothing is said about a value before its last symbol. -/
theorem isOpen_of_value_append {n : ℕ} {v : V} (h : G.front (l ++ m) = .value n v)
    (hlt : l.length < n) : (G.front l).isOpen := by
  cases hf : G.front l with
  | blank | inside => rfl
  | value n' v' =>
    have hle := G.value_le hf
    have heq := (G.value_append hf m).symm.trans h
    cases heq
    omega
  | bad e => cases (G.bad_append hf m).symm.trans h

end Grammar

/-! ## Incremental parsers -/

/-- The verdict of one call of a parser. -/
inductive Verdict (E : Type*) where
  | completed
  | moreDataNeeded
  | failed (e : E)
  deriving DecidableEq

/-- The result of one call: how many symbols of the piece were read, the verdict, and the parser
as the call leaves it. -/
structure ParseResult (σ E : Type*) where
  ptr : ℕ
  ec : Verdict E
  state : σ

/-- A parser that is fed a stream piece by piece.  `value` is what it has built when it is
complete, `currentDepth` the number of values that are open. -/
structure Parser (σ β V E : Type*) where
  fresh : σ
  parse : σ → List β → ParseResult σ E
  value : σ → V
  currentDepth : σ → ℕ

namespace Parser

variable (P : Parser σ β V E)

/-- `s` is the fresh parser after it has been fed `l`, in any pieces, without a verdict. -/
inductive Fed : List β → σ → Prop
  | fresh : Fed [] P.fresh
  | more {l : List β} {s : σ} (b : List β) : Fed l s → (P.parse s b).ec = .moreDataNeeded →
      Fed (l ++ b) (P.parse s b).state

/-- **The law of an incremental parser**: each answer is the grammar's for everything fed so
far, and the depth tells whether a value is open. -/
structure Implements (G : Grammar β V E) : Prop where
  completed : ∀ {l s}, P.Fed l s → ∀ {b n v}, G.front (l ++ b) = .value n v →
    (P.parse s b).ec = .completed ∧ l.length + (P.parse s b).ptr = n ∧
      P.value (P.parse s b).state = v
  failed : ∀ {l s}, P.Fed l s → ∀ {b e}, G.front (l ++ b) = .bad e →
    (P.parse s b).ec = .failed e
  more : ∀ {l s}, P.Fed l s → ∀ {b}, (G.front (l ++ b)).isOpen →
    (P.parse s b).ec = .moreDataNeeded ∧ (P.parse s b).ptr = b.length
  depth : ∀ {l s}, P.Fed l s → (P.currentDepth s ≠ 0 ↔ G.front l = .inside)

variable {P} {G : Grammar β V E}

theorem Implements.front_isOpen (h : P.Implements G) {l : List β} {s : σ} (hs : P.Fed l s) :
    (G.front l).isOpen := by
  cases hs with
  | fresh => rw [G.front_nil]; rfl
  | @more l s b hs hec =>
    cases hf : G.front (l ++ b) with
    | blank => rfl
    | inside => rfl
    | value n v => rw [(h.completed hs hf).1] at hec; cases hec
    | bad e => rw [h.failed hs hf] at hec; cases hec

end Parser

/-! ## Printers -/

/-- One call of a printer: the piece it emits, whether that was the last, and what is left. -/
structure PieceResult (σ β : Type*) where
  piece : List β
  completed : Bool
  state : σ

/-- Called until it is complete, which takes `n` calls, a printer that starts in `s` emits `l`,
piece after piece. -/
inductive Emits (next : σ → PieceResult σ β) : ℕ → σ → List β → Prop
  | last {s : σ} : (next s).completed = true → Emits next 1 s (next s).piece
  | more {n : ℕ} {s : σ} {l : List β} : (next s).completed = false →
      Emits next n (next s).state l → Emits next (n + 1) s ((next s).piece ++ l)

/-- The printer that has its text prepared and emits it in pieces of at most `size` symbols. -/
def chunk (size : ℕ) (l : List β) : PieceResult (List β) β :=
  ⟨l.take size, decide (l.length ≤ size), l.drop size⟩

theorem chunk_emits {size : ℕ} (h : 0 < size) (l : List β) : ∃ n, Emits (chunk size) n l l := by
  by_cases hl : l.length ≤ size
  · have hlast : Emits (chunk size) 1 l (chunk size l).piece := .last (by simp [chunk, hl])
    simp only [chunk, List.take_of_length_le hl] at hlast
    exact ⟨1, hlast⟩
  · obtain ⟨n, hn⟩ := chunk_emits h (l.drop size)
    have hmore : Emits (chunk size) (n + 1) l ((chunk size l).piece ++ l.drop size) :=
      .more (by simp [chunk, hl]) hn
    simp only [chunk, List.take_append_drop] at hmore
    exact ⟨n + 1, hmore⟩
termination_by l.length
decreasing_by rw [List.length_drop]; omega

/-! ## Parsers that read symbol by symbol -/

/-- What one symbol does to an automaton. -/
inductive Move (σ V E : Type*) where
  | next (s : σ)
  | accept (v : V)
  | reject (e : E)

/-- A parser given by what each symbol does; `depth` counts the open values. -/
structure Automaton (σ β V E : Type*) where
  start : σ
  step : σ → β → Move σ V E
  depth : σ → ℕ
  depth_start : depth start = 0

namespace Automaton

variable (A : Automaton σ β V E)

/-- Reads a piece from the state `s`, stopping at the first verdict: the symbols read and the last
move. -/
def read : σ → List β → ℕ × Move σ V E
  | s, [] => (0, .next s)
  | s, b :: l =>
    match A.step s b with
    | .next s' => ((read s' l).1 + 1, (read s' l).2)
    | .accept v => (1, .accept v)
    | .reject e => (1, .reject e)

theorem read_append_of_next {s s' : σ} {l : List β} {n : ℕ} (h : A.read s l = (n, .next s'))
    (m : List β) : A.read s (l ++ m) = (n + (A.read s' m).1, (A.read s' m).2) := by
  induction l generalizing s n with
  | nil =>
    simp only [read, Prod.mk.injEq, Move.next.injEq] at h
    obtain ⟨rfl, rfl⟩ := h
    simp
  | cons b l ih =>
    simp only [read, List.cons_append] at h ⊢
    split at h
    · next t ht =>
      simp only [Prod.mk.injEq] at h
      obtain ⟨rfl, h2⟩ := h
      rw [ih (n := (A.read t l).1) (by rw [← h2])]
      simp only [Prod.mk.injEq, and_true]
      omega
    · simp at h
    · simp at h

theorem read_append_of_verdict {s : σ} {l : List β} (h : ∀ s', (A.read s l).2 ≠ .next s')
    (m : List β) : A.read s (l ++ m) = A.read s l := by
  induction l generalizing s with
  | nil => exact absurd rfl (h s)
  | cons b l ih =>
    simp only [read, List.cons_append] at h ⊢
    split
    · next t ht =>
      rw [ih (by simpa only [ht] using h)]
    · rfl
    · rfl

theorem read_le (s : σ) (l : List β) : (A.read s l).1 ≤ l.length := by
  induction l generalizing s with
  | nil => simp [read]
  | cons b l ih =>
    simp only [read]
    split
    · next t _ => simpa using ih t
    · simp
    · simp

theorem read_next_length {s s' : σ} {l : List β} (h : (A.read s l).2 = .next s') :
    (A.read s l).1 = l.length := by
  induction l generalizing s with
  | nil => rfl
  | cons b l ih =>
    simp only [read] at h ⊢
    split at h
    · next t ht => simp [ih h]
    · cases h
    · cases h

theorem read_take (s : σ) (l : List β) (h : ∀ s', (A.read s l).2 ≠ .next s') :
    A.read s (l.take (A.read s l).1) = A.read s l := by
  induction l generalizing s with
  | nil => exact absurd rfl (h s)
  | cons b l ih =>
    simp only [read] at h ⊢
    split
    · next t ht =>
      simp only [List.take_succ_cons, read, ht]
      rw [ih t (by simpa only [ht] using h)]
    · next v hv => simp [read, hv]
    · next e he => simp [read, he]

/-- The front an automaton sees. -/
def front (l : List β) : Front V E :=
  match A.read A.start l with
  | (_, .next s) => if A.depth s = 0 then .blank else .inside
  | (n, .accept v) => .value n v
  | (_, .reject e) => .bad e

variable {A}

theorem front_value_iff {l : List β} {n : ℕ} {v : V} :
    A.front l = .value n v ↔ A.read A.start l = (n, .accept v) := by
  unfold front
  split
  · next s hs => rw [hs]; split <;> simp
  · next k w hk => rw [hk]; simp
  · next k e hk => rw [hk]; simp

theorem front_bad_iff {l : List β} {e : E} :
    A.front l = .bad e ↔ (A.read A.start l).2 = .reject e := by
  unfold front
  split
  · next s hs => rw [hs]; split <;> simp
  · next k w hk => rw [hk]; simp
  · next k e' hk => rw [hk]; simp

theorem front_isOpen_iff {l : List β} :
    (A.front l).isOpen ↔ ∃ s, (A.read A.start l).2 = .next s := by
  unfold front
  split
  · next s hs => rw [hs]; split <;> simp [Front.isOpen]
  · next k w hk => rw [hk]; simp [Front.isOpen]
  · next k e' hk => rw [hk]; simp [Front.isOpen]

theorem front_inside_iff {l : List β} :
    A.front l = .inside ↔ ∃ s, (A.read A.start l).2 = .next s ∧ A.depth s ≠ 0 := by
  unfold front
  split
  · next s hs => rw [hs]; split <;> simp_all
  · next k w hk => rw [hk]; simp
  · next k e' hk => rw [hk]; simp

variable (A)

/-- The grammar of an automaton. -/
def grammar : Grammar β V E where
  front := A.front
  front_nil := by simp [front, read, A.depth_start]
  value_le := fun {l n v} h => by
    rw [front_value_iff] at h
    have := A.read_le A.start l
    rw [h] at this
    exact this
  value_take := fun {l n v} h => by
    rw [front_value_iff] at h ⊢
    have := A.read_take A.start l (by simp [h])
    rwa [h] at this
  value_append := fun {l n v} h m => by
    rw [front_value_iff] at h ⊢
    rw [A.read_append_of_verdict (by simp [h]), h]
  bad_append := fun {l e} h m => by
    rw [front_bad_iff] at h ⊢
    rw [A.read_append_of_verdict (by simp [h]), h]

/-- The parser of an automaton: its state is the automaton's, or the value it has accepted. -/
def parser [Inhabited V] : Parser (σ × V) β V E where
  fresh := (A.start, default)
  parse s b :=
    match A.read s.1 b with
    | (n, .next s') => ⟨n, .moreDataNeeded, (s', s.2)⟩
    | (n, .accept v) => ⟨n, .completed, (s.1, v)⟩
    | (n, .reject e) => ⟨n, .failed e, s⟩
  value s := s.2
  currentDepth s := A.depth s.1

variable {A} [Inhabited V]

theorem fed_read {l : List β} {s : σ × V} (h : A.parser.Fed l s) :
    A.read A.start l = (l.length, .next s.1) := by
  induction h with
  | fresh => rfl
  | @more l s b hs hec ih =>
    have ec : A.read s.1 b = (b.length, .next (A.parser.parse s b).state.1) := by
      simp only [parser] at hec ⊢
      split at hec
      · next n s' hr =>
        have hn := A.read_next_length (congrArg Prod.snd hr)
        rw [hr] at hn ⊢
        simp only at hn
        simp [hn]
      · cases hec
      · cases hec
    rw [A.read_append_of_next ih b, ec, List.length_append]

/-- **An automaton is an incremental parser of its grammar.** -/
theorem implements (A : Automaton σ β V E) : A.parser.Implements A.grammar where
  completed := fun {l s} hs {b n v} h => by
    have h : A.read A.start (l ++ b) = (n, .accept v) := front_value_iff.1 h
    rw [A.read_append_of_next (fed_read hs) b, Prod.mk.injEq] at h
    have hr : A.read s.1 b = ((A.read s.1 b).1, .accept v) := Prod.ext rfl h.2
    refine ⟨?_, ?_, ?_⟩
    · simp only [parser]; rw [hr]
    · simp only [parser]; rw [hr]; exact h.1
    · simp only [parser]; rw [hr]
  failed := fun {l s} hs {b e} h => by
    have h : (A.read A.start (l ++ b)).2 = .reject e := front_bad_iff.1 h
    rw [A.read_append_of_next (fed_read hs) b] at h
    have hr : A.read s.1 b = ((A.read s.1 b).1, .reject e) := Prod.ext rfl h
    simp only [parser]; rw [hr]
  more := fun {l s} hs {b} h => by
    obtain ⟨s', h⟩ := front_isOpen_iff.1 h
    rw [A.read_append_of_next (fed_read hs) b] at h
    have hr : A.read s.1 b = (b.length, .next s') := Prod.ext (A.read_next_length h) h
    simp only [parser]; rw [hr]; simp
  depth := fun {l s} hs => by
    have h : A.grammar.front l = .inside ↔ _ := front_inside_iff
    rw [h, fed_read hs]
    simp [parser]

end Automaton

end ThePipe.Lib
