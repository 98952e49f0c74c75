import ThePipe.JsonLog.Reader
import ThePipe.JsonLog.Writer

/-!
# The log channel

A writer at one end of a pipe and a reader at the other: the bytes the writer's descriptor accepts
are the stream the reader reads, which ends when the write end is closed.  The pieces of the
serializer, the short writes, the reads and the parser's values have boundaries of their own.
-/

set_option autoImplicit false

namespace ThePipe.JsonLog

open Lib Jopp Log OsServices ErrorHandling Io Fd

variable {σ ζ : Type} {P : Parser σ UInt8 Container SyntaxError}
  {G : Grammar UInt8 Container SyntaxError} {S : Serializer ζ} {text : Object → List UInt8}

theorem report_of_ok {undef : Binary64 → Int64} {who : String} {obj : Object} {item : Item}
    (h : makeLogItem undef obj = .ok item) :
    report undef who (.object obj) = .consume who item := by
  rw [report, h]

/-- The calls of the reference for the serializations of some items: one for each. -/
theorem reference_of_items (undef : Binary64 → Int64) (who : String) {items received : List Item}
    (hparse : ∀ item ∈ items, G.front (text (toJoppObject item)) =
      .value (text (toJoppObject item)).length (.object (toJoppObject item)))
    (hrec : items.map (fun item => makeLogItem undef (toJoppObject item)) = received.map .ok) :
    reference undef G who (items.map fun item => text (toJoppObject item)).flatten =
      received.map (.consume who) ++ [.stopListening] := by
  have hreport : (items.map fun item => Container.object (toJoppObject item)).map
      (report undef who) = received.map (.consume who) := by
    clear hparse
    induction items generalizing received with
    | nil =>
      obtain rfl : received = [] := by simpa using hrec
      rfl
    | cons item items ih =>
      obtain ⟨got, received, rfl⟩ : ∃ a l, received = a :: l := by
        cases received with
        | nil => simp at hrec
        | cons a l => exact ⟨a, l, rfl⟩
      simp only [List.map_cons, List.cons.injEq] at hrec ⊢
      exact ⟨report_of_ok hrec.1, ih hrec.2⟩
  unfold reference
  rw [G.cut_flatten (fun item => text (toJoppObject item))
    (fun item => .object (toJoppObject item)) hparse, hreport]
  rfl

/-- **The log channel loses, duplicates and reorders nothing.**  Whatever the buffer sizes, and
however the writes and the reads go, when every item has been written the reader consumes one item
for each, in order, and stops listening at the end of the stream; until then it has consumed the
first of them.  Every item has been written after enough calls that make progress.  `received` are
the items as they come back from their JSON objects. -/
theorem channel_lossless (undef : Binary64 → Int64) (who : String) (hP : P.Implements G)
    (hS : S.Prints text) {writeSize readSize : ℕ} (hW : 0 < writeSize) (hR : 0 < readSize)
    (items : List Item) (hparse : ∀ item ∈ items, G.front (text (toJoppObject item)) =
      .value (text (toJoppObject item)).length (.object (toJoppObject item))) :
    ∃ received : List Item,
      items.map (fun item => makeLogItem undef (toJoppObject item)) = received.map .ok ∧
      ∃ n, ∀ fuel ≥ n, ∀ calls, ∃ w, writeAll S writeSize fuel items calls = some w ∧
        let whole := (items.map fun item => text (toJoppObject item)).flatten
        w.accepted <+: whole ∧
        ((∀ c ∈ calls, GoesOn c) → whole.length ≤ calls.countP Progresses →
          w.exit = .returned) ∧
        (w.exit = .returned → ∀ events,
          ∃ r, serve P undef readSize who (readSize + 1) events P.fresh w.accepted = some r ∧
            (r.exit = .stopped → r.callbacks = received.map (.consume who) ++ [.stopListening]) ∧
            r.callbacks <+: received.map (.consume who) ++ [.stopListening] ∧
            ((∀ e ∈ events, e.Complete w.accepted.length) →
              (∃ e ∈ events, e.Drains w.accepted.length) → r.exit = .stopped)) := by
  let received := items.map fun item =>
    { item with when := timePoint undef (secondsSinceEpoch item.when) }
  have hrec : items.map (fun item => makeLogItem undef (toJoppObject item)) = received.map .ok := by
    rw [List.map_map]
    exact List.map_congr_left fun item _ => makeLogItem_toJoppObject undef item
  have href := reference_of_items undef who hparse hrec
  obtain ⟨n, hn⟩ := exists_fuel hS hW items
  refine ⟨received, hrec, n, fun fuel hfuel calls => ?_⟩
  obtain ⟨w, hw, hpre, hall⟩ := writeAll_spec hn hfuel calls
  refine ⟨w, hw, hpre, (writeAll_delivers hn hfuel hw).returned hpre, fun hx events => ?_⟩
  obtain ⟨r, hr, hspec⟩ :=
    serve_spec undef who hP hR (Nat.lt_succ_self readSize) events w.accepted .fresh
  rw [List.nil_append, hall hx, href] at hspec
  have hret := fun hc => (serve_returns undef who hR hc hr).2
  by_cases hstop : r.exit = .stopped
  · rw [if_pos hstop] at hspec
    exact ⟨r, hr, fun _ => hspec.symm, hspec ▸ List.prefix_refl _, hret⟩
  · rw [if_neg hstop] at hspec
    obtain ⟨l', -, -, hleft⟩ := hspec
    exact ⟨r, hr, fun h => absurd h hstop, hleft ▸ List.prefix_append _ _, hret⟩

def exampleItems : List Item := [⟨0, .warning, "disk full"⟩, ⟨0, .info, "disk replaced"⟩]

def exampleObjects : List Object :=
  [[("message", .string "disk full"), ("severity", .string "warning"),
      ("when", .number (.finite 0))],
    [("message", .string "disk replaced"), ("severity", .string "info"),
      ("when", .number (.finite 0))]]

theorem map_toJoppObject_exampleItems : exampleItems.map toJoppObject = exampleObjects := by
  simp only [exampleItems, List.map_cons, toJoppObject, secondsSinceEpoch_zero]
  rfl

theorem front_exampleItems : ∀ item ∈ exampleItems, Flat.automaton.grammar.front
    (Flat.text (toJoppObject item)) =
      .value (Flat.text (toJoppObject item)).length (.object (toJoppObject item)) := by
  have hall : ∀ obj ∈ exampleObjects, Flat.automaton.grammar.front (Flat.text obj) =
      .value (Flat.text obj).length (.object obj) := by
    intro obj hobj
    rcases List.mem_pair.1 hobj with rfl | rfl
    · rfl
    · rfl
  intro item hitem
  refine hall _ ?_
  rw [← map_toJoppObject_exampleItems]
  exact List.mem_map_of_mem hitem

theorem length_exampleItems :
    (exampleItems.map fun item => Flat.text (toJoppObject item)).flatten.length < 150 := by
  have hobjects : (exampleItems.map fun item => Flat.text (toJoppObject item)) =
      exampleObjects.map Flat.text := by
    rw [← map_toJoppObject_exampleItems, List.map_map]
    rfl
  rw [hobjects]
  decide

/-- A channel for flat objects, with a writer buffer of five bytes and a reader buffer of three.
The writer is interrupted now and then, and the reader finds the pipe empty once. -/
theorem channel_lossless_flat :
    ∃ n, ∀ fuel ≥ n, ∃ w r,
      writeAll Flat.serializer 5 fuel exampleItems (.replicate 150 ⟨1, .transfers 2 0⟩) = some w ∧
        w.exit = .returned ∧
        serve Flat.automaton.parser (fun _ => 0) 3 "client" 4 (drainingEvents 150)
            Flat.automaton.parser.fresh w.accepted = some r ∧
        r.exit = .stopped ∧
        r.callbacks = [.consume "client" ⟨0, .warning, "disk full"⟩,
          .consume "client" ⟨0, .info, "disk replaced"⟩, .stopListening] := by
  obtain ⟨received, hrec, n, h⟩ := channel_lossless (fun _ => 0) "client"
    Flat.automaton.implements Flat.serializer_prints (show 0 < 5 by decide) (show 0 < 3 by decide)
    exampleItems front_exampleItems
  have hreceived : received = exampleItems := by
    -- the time stamps come back as they are
    have hsame : exampleItems.map (fun item => makeLogItem (fun _ => 0) (toJoppObject item)) =
        exampleItems.map .ok := by
      simp only [exampleItems, List.map_cons, List.map_nil, makeLogItem_toJoppObject,
        secondsSinceEpoch_zero, timePoint_zero]
    exact List.map_injective_iff.2 (fun _ _ h => by injection h) (hrec.symm.trans hsame)
  refine ⟨n, fun fuel hfuel => ?_⟩
  obtain ⟨w, hw, hpre, hreturned, hserve⟩ := h fuel hfuel (.replicate 150 ⟨1, .transfers 2 0⟩)
  have hwritten : w.exit = .returned := by
    refine hreturned (fun c hc => .inl ⟨2, 0, by rw [List.eq_of_mem_replicate hc]⟩) ?_
    rw [List.countP_replicate]
    exact length_exampleItems.le
  have hdrain := drainingEvents_drain (hpre.length_le.trans_lt length_exampleItems)
  obtain ⟨r, hr, hstop, -, hcomplete⟩ := hserve hwritten (drainingEvents 150)
  have hexit : r.exit = .stopped := hcomplete hdrain.1 hdrain.2
  refine ⟨w, r, hw, hwritten, hr, hexit, ?_⟩
  rw [hstop hexit, hreceived]
  rfl

end ThePipe.JsonLog
