import ThePipe.JsonLog.ItemConverter
import ThePipe.OsServices.Io

/-!
# The log writer

`write` lets the serializer fill the output buffer, writes the buffer out with as many calls of
`::write` as the kernel needs, and starts over until the serialization is complete.  The environment
decides how each call goes; the bytes the descriptor has accepted are recorded.
-/

set_option autoImplicit false

namespace ThePipe.JsonLog

open Lib Jopp Log OsServices ErrorHandling Io

/-- How `write` ends. -/
inductive WriteExit where
  | returned
  | threw (e : SystemError)
  /-- It has not come back from the last system call. -/
  | waiting
  deriving DecidableEq

/-- The outcome of writing: the bytes accepted, and the calls not yet made. -/
structure Written where
  accepted : List UInt8
  calls : List Call
  exit : WriteExit

def Written.after (accepted : List UInt8) (w : Written) : Written :=
  { w with accepted := accepted ++ w.accepted }

/-- Writes until nothing is left of the data: the inner loop. -/
def drain : List Call → List UInt8 → Written
  | calls, [] => ⟨[], calls, .returned⟩
  | [], _ :: _ => ⟨[], [], .waiting⟩
  | call :: calls, b :: bs =>
    let dataToWrite := b :: bs
    match Io.write dataToWrite call with
    | none => ⟨[], calls, .waiting⟩
    | some (.error e) => ⟨[], calls, .threw e⟩
    | some (.ok (writeResult, accepted)) =>
      (drain calls (dataToWrite.drop writeResult.bytesTransferred)).after accepted

section

variable {ζ : Type} (S : Serializer ζ) (bufferSize : ℕ)

/-- The loop over the pieces of a serialization; `none` when it has not ended after `fuel`
pieces. -/
def writeLoop : ℕ → ζ → List Call → Option Written
  | 0, _, _ => none
  | fuel + 1, serializer, calls =>
    let serializeResult := S.serialize serializer bufferSize
    let w := drain calls serializeResult.piece
    match w.exit with
    | .returned =>
      if serializeResult.completed then some w
      else (writeLoop fuel serializeResult.state w.calls).map (·.after w.accepted)
    | _ => some w

def write (fuel : ℕ) (item : Item) (calls : List Call) : Option Written :=
  writeLoop S bufferSize fuel (S.make (toJoppObject item)) calls

/-- Writes one item after the other, as long as `write` returns. -/
def writeAll (fuel : ℕ) : List Item → List Call → Option Written
  | [], calls => some ⟨[], calls, .returned⟩
  | item :: items, calls =>
    match write S bufferSize fuel item calls with
    | none => none
    | some ⟨accepted, calls, .returned⟩ => (writeAll fuel items calls).map (·.after accepted)
    | some w => some w

end

/-! ## What is written -/

theorem write_ok {data accepted : List UInt8} {c : Call} {io : IoResult}
    (h : Io.write data c = some (.ok (io, accepted))) :
    accepted = data.take io.bytesTransferred := by
  unfold Io.write at h
  obtain ⟨r, -, hr⟩ := Option.map_eq_some_iff.1 h
  cases hm : IoResult.make r.value r.errno with
  | error e => rw [hm] at hr; cases hr
  | ok io' =>
    rw [hm] at hr
    simp only [Except.map, Except.ok.injEq, Prod.mk.injEq] at hr
    obtain ⟨rfl, rfl⟩ := hr
    rfl

/-- What has been accepted is a prefix of the data, and all of it when the loop is left. -/
theorem drain_spec (calls : List Call) (data : List UInt8) :
    (drain calls data).accepted <+: data ∧
      ((drain calls data).exit = .returned → (drain calls data).accepted = data) := by
  induction calls generalizing data with
  | nil =>
    cases data with
    | nil => exact ⟨List.prefix_refl _, fun _ => rfl⟩
    | cons b bs => exact ⟨List.nil_prefix, fun h => by cases h⟩
  | cons call calls ih =>
    cases data with
    | nil => exact ⟨List.prefix_refl _, fun _ => rfl⟩
    | cons b bs =>
      rw [drain]
      cases hw : Io.write (b :: bs) call with
      | none => exact ⟨List.nil_prefix, fun h => by cases h⟩
      | some res =>
        cases res with
        | error e => exact ⟨List.nil_prefix, fun h => by cases h⟩
        | ok res =>
          obtain ⟨io, accepted⟩ := res
          obtain ⟨hpre, hall⟩ := ih ((b :: bs).drop io.bytesTransferred)
          have hsplit : accepted ++ (b :: bs).drop io.bytesTransferred = b :: bs := by
            rw [write_ok hw, List.take_append_drop]
          refine ⟨?_, fun hx => ?_⟩
          · have := (List.prefix_append_right_inj accepted).2 hpre
            rwa [hsplit] at this
          · show accepted ++ _ = _
            rw [hall hx, hsplit]

section

variable {ζ : Type} {S : Serializer ζ} {bufferSize : ℕ}

/-- The bytes of a serialization are written in order: all of them when `write` returns, and a
prefix of them when it does not. -/
theorem writeLoop_spec {n fuel : ℕ} {z : ζ} {text : List UInt8}
    (hz : Emits (S.serialize · bufferSize) n z text) (hfuel : n ≤ fuel) (calls : List Call) :
    ∃ w, writeLoop S bufferSize fuel z calls = some w ∧ w.accepted <+: text ∧
      (w.exit = .returned → w.accepted = text) := by
  induction hz generalizing fuel calls with
  | @last z hlast =>
    obtain ⟨fuel, rfl⟩ : ∃ k, fuel = k + 1 := ⟨fuel - 1, by omega⟩
    obtain ⟨hpre, hall⟩ := drain_spec calls (S.serialize z bufferSize).piece
    refine ⟨_, ?_, hpre, hall⟩
    rw [writeLoop, if_pos hlast]
    split <;> rfl
  | @more n z text hmore _ ih =>
    obtain ⟨fuel, rfl⟩ : ∃ k, fuel = k + 1 := ⟨fuel - 1, by omega⟩
    obtain ⟨hpre, hall⟩ := drain_spec calls (S.serialize z bufferSize).piece
    rw [writeLoop, if_neg (by simp [hmore])]
    cases hx : (drain calls (S.serialize z bufferSize).piece).exit with
    | returned =>
      obtain ⟨w, hw, hwpre, hwall⟩ :=
        ih (Nat.le_of_succ_le_succ hfuel) (drain calls (S.serialize z bufferSize).piece).calls
      refine ⟨w.after (drain calls (S.serialize z bufferSize).piece).accepted, ?_, ?_, ?_⟩
      · rw [hw]; rfl
      · show _ ++ w.accepted <+: _
        rw [hall hx]
        exact (List.prefix_append_right_inj _).2 hwpre
      · intro hret
        show _ ++ w.accepted = _
        rw [hall hx, hwall hret]
    | threw e =>
      exact ⟨_, rfl, hpre.trans (List.prefix_append _ _), fun h => by rw [hx] at h; cases h⟩
    | waiting =>
      exact ⟨_, rfl, hpre.trans (List.prefix_append _ _), fun h => by rw [hx] at h; cases h⟩

theorem writeAll_spec {text : Object → List UInt8} {items : List Item} {n fuel : ℕ}
    (hz : ∀ item ∈ items, ∃ k ≤ n, Emits (S.serialize · bufferSize) k
      (S.make (toJoppObject item)) (text (toJoppObject item)))
    (hfuel : n ≤ fuel) (calls : List Call) :
    ∃ w, writeAll S bufferSize fuel items calls = some w ∧
      w.accepted <+: (items.map fun item => text (toJoppObject item)).flatten ∧
      (w.exit = .returned →
        w.accepted = (items.map fun item => text (toJoppObject item)).flatten) := by
  induction items generalizing calls with
  | nil => exact ⟨_, rfl, List.nil_prefix, fun _ => rfl⟩
  | cons item items ih =>
    obtain ⟨k, hk, hemit⟩ := hz item (List.mem_cons_self ..)
    obtain ⟨⟨accepted, calls', exit⟩, hw, hpre, hall⟩ :=
      writeLoop_spec hemit (hk.trans hfuel) calls
    rw [writeAll, write, hw, List.map_cons, List.flatten_cons]
    cases exit with
    | returned =>
      obtain ⟨w, hrest, hpre', hall'⟩ := ih (fun i hi => hz i (List.mem_cons_of_mem _ hi)) calls'
      have hacc : accepted = text (toJoppObject item) := hall rfl
      refine ⟨w.after accepted, by dsimp only; rw [hrest]; rfl, ?_, fun hx => ?_⟩
      · show accepted ++ _ <+: _
        rw [hacc]
        exact (List.prefix_append_right_inj _).2 hpre'
      · show accepted ++ _ = _
        rw [hacc, hall' hx]
    | threw e => exact ⟨_, rfl, hpre.trans (List.prefix_append _ _), fun h => by cases h⟩
    | waiting => exact ⟨_, rfl, hpre.trans (List.prefix_append _ _), fun h => by cases h⟩

end

/-! ## Which calls are made -/

/-- The call does not end the inner loop: bytes are accepted, possibly none, or it would block. -/
def GoesOn (c : Call) : Prop := c.IsTransfer ∨ c.IsPause

def Progresses (c : Call) : Bool :=
  match c.last with
  | .transfers k _ => k ≠ 0
  | .fails _ => false

/-- The call fails for another reason than a signal, or that it would have blocked. -/
def FailsWith (c : Call) (err : Errno) : Prop :=
  c.last = .fails err ∧ err ≠ EINTR ∧ err ≠ EAGAIN ∧ err ≠ EWOULDBLOCK

theorem GoesOn.not_interrupted {c : Call} (h : GoesOn c) : c.last ≠ .fails EINTR := by
  rintro hlast
  rcases h with ⟨k, err, ht⟩ | hp
  · cases hlast.symm.trans ht
  · cases hlast.symm.trans hp

theorem GoesOn.not_failsWith {c : Call} {err : Errno} (h : GoesOn c) : ¬ FailsWith c err := by
  rintro ⟨hlast, -, hagain, -⟩
  rcases h with ⟨k, err', ht⟩ | hp
  · cases hlast.symm.trans ht
  · cases hlast.symm.trans hp
    exact hagain rfl

/-- Some of the calls are made, `n` of which make progress; the rest is left when it ends. -/
inductive Made : List Call → ℕ → List Call → WriteExit → Prop
  | returned (calls : List Call) : Made calls 0 calls .returned
  | outOfCalls : Made [] 0 [] .waiting
  | interrupted {c : Call} {calls : List Call} : c.last = .fails EINTR →
      Made (c :: calls) 0 calls .waiting
  | threw {c : Call} {calls : List Call} {err : Errno} : FailsWith c err →
      Made (c :: calls) 0 calls (.threw ⟨"I/O operation failed", err⟩)
  | goesOn {c : Call} {calls rest : List Call} {n : ℕ} {exit : WriteExit} : GoesOn c →
      Made calls n rest exit → Made (c :: calls) ((Progresses c).toNat + n) rest exit

theorem Made.append {calls mid rest : List Call} {n m : ℕ} {exit : WriteExit}
    (h : Made calls n mid .returned) (h' : Made mid m rest exit) :
    Made calls (n + m) rest exit := by
  generalize hexit : WriteExit.returned = exit₁ at h
  induction h with
  | returned calls => simpa using h'
  | goesOn hc _ ih => simpa [Nat.add_assoc] using Made.goesOn hc (ih h' hexit)
  | _ => cases hexit

theorem Made.of_goesOn {calls rest : List Call} {n : ℕ} {exit : WriteExit}
    (h : Made calls n rest exit) (hc : ∀ c ∈ calls, GoesOn c) :
    exit = .returned ∨ exit = .waiting ∧ n = calls.countP Progresses := by
  induction h with
  | returned => exact .inl rfl
  | outOfCalls => exact .inr ⟨rfl, rfl⟩
  | interrupted hlast => exact absurd hlast (hc _ List.mem_cons_self).not_interrupted
  | threw hfails => exact absurd hfails (hc _ List.mem_cons_self).not_failsWith
  | @goesOn c calls rest n exit _ _ ih =>
    refine (ih fun c' hc' => hc c' (List.mem_cons_of_mem _ hc')).imp_right fun ⟨hx, hn⟩ => ⟨hx, ?_⟩
    rw [List.countP_cons, hn, Nat.add_comm]
    cases Progresses c <;> rfl

/-- A call that fails is reported, unless the writer has returned before it. -/
theorem Made.of_failsWith {pre post rest : List Call} {c : Call} {err : Errno} {n : ℕ}
    {exit : WriteExit} (h : Made (pre ++ c :: post) n rest exit) (hpre : ∀ c ∈ pre, GoesOn c)
    (hc : FailsWith c err) :
    exit = .returned ∧ c :: post <:+ rest ∨ exit = .threw ⟨"I/O operation failed", err⟩ := by
  induction pre generalizing n with
  | nil =>
    cases h with
    | returned => exact .inl ⟨rfl, List.suffix_refl _⟩
    | interrupted hlast =>
      cases hlast.symm.trans hc.1
      exact absurd rfl hc.2.1
    | threw hfails =>
      cases hfails.1.symm.trans hc.1
      exact .inr rfl
    | goesOn hgoes _ => exact absurd hc hgoes.not_failsWith
  | cons c' pre ih =>
    have hc' := hpre c' List.mem_cons_self
    cases h with
    | returned => exact .inl ⟨rfl, List.suffix_append (c' :: pre) _⟩
    | interrupted hlast => exact absurd hlast hc'.not_interrupted
    | threw hfails => exact absurd hfails hc'.not_failsWith
    | goesOn _ hrest => exact ih hrest fun c'' hc'' => hpre c'' (List.mem_cons_of_mem _ hc'')

/-- The calls made for some text, of which `w` is the outcome.  It ends regularly exactly when
everything has been accepted, and every call that made progress has had a byte accepted. -/
def Delivers (text : List UInt8) (calls : List Call) (w : Written) : Prop :=
  ∃ n, Made calls n w.calls w.exit ∧ n ≤ w.accepted.length ∧
    (w.exit = .returned ↔ w.accepted.length = text.length)

theorem Delivers.cons {piece text : List UInt8} {call : Call} {calls : List Call} {w : Written}
    (hc : GoesOn call) (hp : (Progresses call).toNat ≤ piece.length) (h : Delivers text calls w) :
    Delivers (piece ++ text) (call :: calls) (w.after piece) := by
  obtain ⟨n, hmade, hn, hx⟩ := h
  refine ⟨_, .goesOn hc hmade, ?_, ?_⟩
  · simp only [Written.after, List.length_append]
    omega
  · simp only [Written.after, List.length_append, Nat.add_left_cancel_iff]
    exact hx

theorem drain_delivers (calls : List Call) (data : List UInt8) :
    Delivers data calls (drain calls data) := by
  induction calls generalizing data with
  | nil =>
    cases data with
    | nil => exact ⟨0, .returned [], le_rfl, by simp [drain]⟩
    | cons b bs => exact ⟨0, .outOfCalls, le_rfl, by simp [drain]⟩
  | cons call calls ih =>
    cases data with
    | nil => exact ⟨0, .returned _, le_rfl, by simp [drain]⟩
    | cons b bs =>
      cases hlast : call.last with
      | fails err =>
        rw [drain, write_of_fails hlast]
        by_cases hintr : err = EINTR
        · rw [if_pos hintr]
          exact ⟨0, .interrupted (by rw [hlast, hintr]), le_rfl, by simp⟩
        · rw [if_neg hintr]
          by_cases hblock : err = EAGAIN ∨ err = EWOULDBLOCK
          · rw [if_pos hblock]
            have hpause : call.IsPause := by
              rcases hblock with rfl | rfl <;> exact hlast
            have hno : Progresses call = false := by simp [Progresses, hlast]
            exact (ih (b :: bs)).cons (.inr hpause) (by simp [hno])
          · rw [if_neg hblock]
            rw [not_or] at hblock
            exact ⟨0, .threw ⟨hlast, hintr, hblock⟩, le_rfl, by simp⟩
      | transfers k err =>
        rw [drain, write_of_transfer hlast]
        -- a call that accepts nothing is made again; any other one makes progress
        have hbytes : IoResult.bytesTransferred ⟨min k (b :: bs).length⟩ =
            min k (b :: bs).length := by
          unfold IoResult.bytesTransferred
          dsimp only
          split <;> omega
        have hprogress : (Progresses call).toNat ≤
            ((b :: bs).take (min k (b :: bs).length)).length := by
          rw [List.length_take, List.length_cons, Progresses, hlast]
          by_cases hk : k = 0
          · simp [hk]
          · simp only [hk, ne_eq, not_false_eq_true, decide_true, Bool.toNat_true]
            omega
        dsimp only
        rw [hbytes]
        have hrest := (ih ((b :: bs).drop (min k (b :: bs).length))).cons
          (.inl ⟨k, err, hlast⟩) hprogress
        rwa [List.take_append_drop] at hrest

section

variable {ζ : Type} {S : Serializer ζ} {bufferSize : ℕ}

theorem Delivers.append {text text' : List UInt8} {calls : List Call} {w w' : Written}
    (h : Delivers text calls w) (hx : w.exit = .returned) (h' : Delivers text' w.calls w') :
    Delivers (text ++ text') calls (w'.after w.accepted) := by
  obtain ⟨n, hmade, hn, hret⟩ := h
  obtain ⟨m, hmade', hm, hret'⟩ := h'
  rw [hx] at hmade
  refine ⟨n + m, hmade.append hmade', ?_, ?_⟩
  · simp only [Written.after, List.length_append]
    omega
  · simp only [Written.after, List.length_append, hret', hret.1 hx, Nat.add_left_cancel_iff]

theorem Delivers.of_not_returned {text text' : List UInt8} {calls : List Call} {w : Written}
    (h : Delivers text calls w) (hpre : w.accepted <+: text) (hx : w.exit ≠ .returned) :
    Delivers (text ++ text') calls w := by
  obtain ⟨n, hmade, hn, hret⟩ := h
  refine ⟨n, hmade, hn, iff_of_false hx fun hlen => ?_⟩
  have hne := mt hret.2 hx
  have hle := hpre.length_le
  rw [List.length_append] at hlen
  omega

theorem writeLoop_delivers {n fuel : ℕ} {z : ζ} {text : List UInt8}
    (hz : Emits (S.serialize · bufferSize) n z text) {calls : List Call} {w : Written}
    (hw : writeLoop S bufferSize fuel z calls = some w) : Delivers text calls w := by
  induction hz generalizing fuel calls w with
  | @last z hlast =>
    cases fuel with
    | zero => cases hw
    | succ fuel =>
      have hdrain := drain_delivers calls (S.serialize z bufferSize).piece
      rw [writeLoop, if_pos hlast] at hw
      split at hw <;> cases hw <;> exact hdrain
  | @more n z text hmore _ ih =>
    cases fuel with
    | zero => cases hw
    | succ fuel =>
      have hdrain := drain_delivers calls (S.serialize z bufferSize).piece
      rw [writeLoop, if_neg (by simp [hmore])] at hw
      split at hw
      · next hx =>
        obtain ⟨w', hw', rfl⟩ := Option.map_eq_some_iff.1 hw
        exact hdrain.append hx (ih hw')
      · next hx =>
        cases hw
        exact hdrain.of_not_returned (drain_spec _ _).1 hx

theorem writeAll_delivers {text : Object → List UInt8} {items : List Item} {n fuel : ℕ}
    (hz : ∀ item ∈ items, ∃ k ≤ n, Emits (S.serialize · bufferSize) k
      (S.make (toJoppObject item)) (text (toJoppObject item)))
    (hfuel : n ≤ fuel) {calls : List Call} {w : Written}
    (hw : writeAll S bufferSize fuel items calls = some w) :
    Delivers (items.map fun item => text (toJoppObject item)).flatten calls w := by
  induction items generalizing calls w with
  | nil =>
    cases hw
    exact ⟨0, .returned calls, le_rfl, by simp⟩
  | cons item items ih =>
    obtain ⟨k, hk, hemit⟩ := hz item (List.mem_cons_self ..)
    obtain ⟨w₁, hw₁, hpre, -⟩ := writeLoop_spec hemit (hk.trans hfuel) calls
    have hfirst := writeLoop_delivers hemit hw₁
    rw [writeAll, write, hw₁] at hw
    obtain ⟨accepted, calls₁, exit⟩ := w₁
    rw [List.map_cons, List.flatten_cons]
    cases exit with
    | returned =>
      obtain ⟨w', hw', rfl⟩ := Option.map_eq_some_iff.1 hw
      exact hfirst.append rfl (ih (fun i hi => hz i (List.mem_cons_of_mem _ hi)) hw')
    | threw e =>
      cases hw
      exact hfirst.of_not_returned hpre (by simp)
    | waiting =>
      cases hw
      exact hfirst.of_not_returned hpre (by simp)

/-- Enough calls that make progress bring the writer to its end. -/
theorem Delivers.returned {text : List UInt8} {calls : List Call} {w : Written}
    (h : Delivers text calls w) (hpre : w.accepted <+: text) (hc : ∀ c ∈ calls, GoesOn c)
    (hprogress : text.length ≤ calls.countP Progresses) : w.exit = .returned := by
  obtain ⟨n, hmade, hn, hret⟩ := h
  rcases hmade.of_goesOn hc with hx | ⟨-, hcount⟩
  · exact hx
  · -- every call has been made, and each has had a byte accepted
    have hle := hpre.length_le
    exact hret.2 (by omega)

theorem exists_fuel {text : Object → List UInt8} (hS : S.Prints text) (hb : 0 < bufferSize)
    (items : List Item) : ∃ n, ∀ item ∈ items, ∃ k ≤ n, Emits (S.serialize · bufferSize) k
      (S.make (toJoppObject item)) (text (toJoppObject item)) := by
  induction items with
  | nil => exact ⟨0, by simp⟩
  | cons item items ih =>
    obtain ⟨n, hn⟩ := ih
    obtain ⟨k, hk⟩ := hS (toJoppObject item) bufferSize hb
    refine ⟨max k n, fun i hi => ?_⟩
    rcases List.mem_cons.1 hi with rfl | hi
    · exact ⟨k, le_max_left .., hk⟩
    · obtain ⟨k', hk', h⟩ := hn i hi
      exact ⟨k', hk'.trans (le_max_right ..), h⟩

/-- **Every byte is written exactly once.**  Whatever the calls do, the bytes accepted are the
first ones of the serializations, and `write` returns exactly when these are all accepted.  It
needs no more calls that make progress than there are bytes; a call that fails makes it throw. -/
theorem writeAll_exactly_once {text : Object → List UInt8} (hS : S.Prints text)
    (hb : 0 < bufferSize) (items : List Item) :
    ∃ n, ∀ fuel ≥ n, ∀ calls, ∃ w, writeAll S bufferSize fuel items calls = some w ∧
      let whole := (items.map fun item => text (toJoppObject item)).flatten
      w.accepted <+: whole ∧
        (w.exit = .returned ↔ w.accepted.length = whole.length) ∧
        (w.exit = .returned → w.accepted = whole) ∧
        ((∀ c ∈ calls, GoesOn c) → whole.length ≤ calls.countP Progresses →
          w.exit = .returned) ∧
        ∀ pre c post err, calls = pre ++ c :: post → (∀ c ∈ pre, GoesOn c) → FailsWith c err →
          w.exit = .returned ∧ c :: post <:+ w.calls ∨
            w.exit = .threw ⟨"I/O operation failed", err⟩ := by
  obtain ⟨n, hn⟩ := exists_fuel hS hb items
  refine ⟨n, fun fuel hfuel calls => ?_⟩
  obtain ⟨w, hw, hpre, hall⟩ := writeAll_spec hn hfuel calls
  have hdelivers := writeAll_delivers hn hfuel hw
  have hreturned := hdelivers.returned hpre
  obtain ⟨m, hmade, -, hret⟩ := hdelivers
  refine ⟨w, hw, hpre, hret, hall, hreturned, ?_⟩
  rintro pre c post err rfl hgoes hfails
  exact hmade.of_failsWith hgoes hfails

/-- An item that is written through a buffer of five bytes, with interruptions, a pause and a call
that accepts nothing on the way. -/
theorem writeAll_exactly_once_flat :
    ∃ n, ∀ fuel ≥ n, ∃ w,
      writeAll Flat.serializer 5 fuel [⟨0, .warning, "disk full"⟩]
          ([⟨2, .transfers 3 0⟩, ⟨0, .fails EAGAIN⟩, ⟨0, .transfers 0 0⟩] ++
            List.replicate 60 ⟨1, .transfers 1 0⟩) = some w ∧
        w.exit = .returned ∧
        w.accepted = Flat.text (toJoppObject ⟨0, .warning, "disk full"⟩) := by
  obtain ⟨n, h⟩ := writeAll_exactly_once Flat.serializer_prints (show 0 < 5 by decide)
    [⟨0, .warning, "disk full"⟩]
  refine ⟨n, fun fuel hfuel => ?_⟩
  obtain ⟨w, hw, -, -, hall, hreturned, -⟩ := h fuel hfuel
    ([⟨2, .transfers 3 0⟩, ⟨0, .fails EAGAIN⟩, ⟨0, .transfers 0 0⟩] ++
      List.replicate 60 ⟨1, .transfers 1 0⟩)
  have hexit : w.exit = .returned := by
    refine hreturned ?_ ?_
    · intro c hc
      simp only [List.cons_append, List.nil_append, List.mem_cons, List.mem_replicate] at hc
      rcases hc with rfl | rfl | rfl | ⟨-, rfl⟩
      · exact .inl ⟨3, 0, rfl⟩
      · exact .inr rfl
      · exact .inl ⟨0, 0, rfl⟩
      · exact .inl ⟨1, 0, rfl⟩
    · have hobj : toJoppObject ⟨0, .warning, "disk full"⟩ = [("message", .string "disk full"),
          ("severity", .string "warning"), ("when", .number (.finite 0))] := by
        rw [toJoppObject, secondsSinceEpoch_zero]
        rfl
      rw [List.map_singleton, List.flatten_singleton, hobj]
      decide
  refine ⟨w, hw, hexit, ?_⟩
  rw [hall hexit, List.map_singleton, List.flatten_singleton]

end

end ThePipe.JsonLog
