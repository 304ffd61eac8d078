import Lox.Proofs.Ending
import Lox.Proofs.Machine.Transcript

/-!
# Limited output

A session whose sink has a limit, next to the same session without one. The limit cuts the output
off and changes nothing before that.

* `Sink.Grows` — nothing that was written is taken back, and a limit is kept.
* `Sink.cut` — what a limit leaves of a sink; `Sink.cut_write` — it does so write by write.
* `Transcript.Records` — what is printed is written down, and a text that is refused ends the run.
* `Transcript.Truncates` — with a limit a run goes on as without, up to the text that is refused.
* `Entry.Agree` — two transcripts agree up to the first text that is refused.
* `Session.limit_truncates` — so do sessions of programs and interactive sessions.
-/

namespace Lox

/-! ## Sinks -/

theorem extract_of_size_le {bytes : ByteArray} {n : Nat} (h : bytes.size ≤ n) :
    bytes.extract 0 n = bytes := by
  rw [ByteArray.ext_iff, ByteArray.data_extract, Array.extract_eq_self_of_le h]

namespace Sink

/-- Something was written to a sink. -/
structure Grows (s s' : Sink) : Prop where
  limit : s'.limit = s.limit
  bytes : ∃ more, s'.bytes = s.bytes ++ more
  room : ∀ limit, s.limit = some limit → s.bytes.size ≤ limit → s'.bytes.size ≤ limit

namespace Grows

variable {s s' s'' : Sink}

theorem refl (s : Sink) : s.Grows s :=
  ⟨rfl, ⟨.empty, ByteArray.append_empty.symm⟩, fun _ _ le => le⟩

theorem trans (h : s.Grows s') (h' : s'.Grows s'') : s.Grows s'' := by
  obtain ⟨more, bytes⟩ := h.bytes
  obtain ⟨more', bytes'⟩ := h'.bytes
  refine ⟨h'.limit.trans h.limit, ⟨more ++ more', ?_⟩, fun limit eq le => ?_⟩
  · rw [bytes', bytes, ByteArray.append_assoc]
  · exact h'.room limit (h.limit.trans eq) (h.room limit eq le)

theorem write (s : Sink) (text : String) : s.Grows (s.write text).2 := by
  obtain ⟨bytes, limit⟩ := s
  cases limit with
  | none => exact ⟨rfl, ⟨_, rfl⟩, fun _ none => by cases none⟩
  | some limit =>
    refine ⟨rfl, ⟨_, rfl⟩, fun limit' eq le => ?_⟩
    cases eq
    show (bytes ++ text.toUTF8.extract 0 (limit - bytes.size)).size ≤ limit
    rw [ByteArray.size_append, ByteArray.size_extract]
    dsimp only at le
    omega

theorem size_le (h : s.Grows s') : s.bytes.size ≤ s'.bytes.size := by
  obtain ⟨more, bytes⟩ := h.bytes
  rw [bytes, ByteArray.size_append]
  omega

/-- What was written first stays what it was. -/
theorem extract (h : s.Grows s') {n : Nat} (le : n ≤ s.bytes.size) :
    s'.bytes.extract 0 n = s.bytes.extract 0 n := by
  obtain ⟨more, bytes⟩ := h.bytes
  rw [bytes, ByteArray.extract_append, Nat.sub_eq_zero_of_le le, Nat.zero_sub,
    ByteArray.extract_same, ByteArray.append_empty]

/-- Nothing gets into a full sink. -/
theorem of_full (h : s.Grows s') (full : s.limit = some s.bytes.size) : s' = s := by
  have size := Nat.le_antisymm (h.room _ full (Nat.le_refl _)) h.size_le
  have bytes := h.extract (Nat.le_refl s.bytes.size)
  rw [ByteArray.extract_zero_size, ← size, ByteArray.extract_zero_size] at bytes
  cases s
  cases s'
  cases bytes
  cases h.limit
  rfl

end Grows

/-- Without a limit nothing is refused. -/
theorem write_unlimited (s : Sink) (text : String) (unlimited : s.limit = none) :
    (s.write text).1 = true := by
  unfold write
  rw [unlimited]

/-- What a limit leaves of a sink. -/
def cut (limit : Nat) (s : Sink) : Sink := ⟨s.bytes.extract 0 limit, some limit⟩

variable {limit : Nat} {s s' : Sink}

theorem size_cut (limit : Nat) (s : Sink) : (s.cut limit).bytes.size = min limit s.bytes.size := by
  rw [cut, ByteArray.size_extract, Nat.sub_zero]

theorem bytes_cut (fits : s.bytes.size ≤ limit) : (s.cut limit).bytes = s.bytes :=
  extract_of_size_le fits

/-- Of what was written from some place on a limit leaves the beginning. -/
theorem extract_cut {start : Nat} (before : start ≤ limit) (beyond : limit ≤ s.bytes.size) :
    ∃ more, s.bytes.extract start s.bytes.size =
      (s.cut limit).bytes.extract start (s.cut limit).bytes.size ++ more := by
  refine ⟨s.bytes.extract limit s.bytes.size, ?_⟩
  rw [size_cut, Nat.min_eq_left beyond, cut, ByteArray.extract_extract, Nat.zero_add, Nat.zero_add,
    Nat.min_self, ByteArray.extract_append_extract, Nat.min_eq_left before, Nat.max_eq_right beyond]

/-- A limit that is used up leaves the same of what comes later. -/
theorem Grows.cut (h : s.Grows s') (beyond : limit ≤ s.bytes.size) : s'.cut limit = s.cut limit := by
  rw [Sink.cut, Sink.cut, h.extract beyond]

/-- Where a limit is used up nothing more is written. -/
theorem Grows.of_cut (h : (s.cut limit).Grows s') (beyond : limit ≤ s.bytes.size) :
    s' = s.cut limit := by
  refine h.of_full ?_
  rw [size_cut, Nat.min_eq_left beyond]
  rfl

/-- A write with a limit leaves what the limit leaves of the write without. It is refused if there is
more than the limit then. -/
theorem cut_write (unlimited : s.limit = none) (fits : s.bytes.size ≤ limit) (text : String) :
    (s.cut limit).write text =
      (decide ((s.write text).2.bytes.size ≤ limit), (s.write text).2.cut limit) := by
  obtain ⟨bytes, limit'⟩ := s
  cases unlimited
  have whole : bytes.extract 0 limit = bytes := extract_of_size_le fits
  have size : (bytes ++ text.toUTF8).size = bytes.size + text.utf8ByteSize := by
    rw [ByteArray.size_append, String.toUTF8, String.size_toByteArray]
  have both : (bytes ++ text.toUTF8).extract 0 limit =
      bytes ++ text.toUTF8.extract 0 (limit - bytes.size) := by
    rw [ByteArray.extract_append, whole, Nat.zero_sub]
  have taken : decide (text.utf8ByteSize ≤ limit - bytes.size) =
      decide ((bytes ++ text.toUTF8).size ≤ limit) := by
    dsimp only at fits
    rw [decide_eq_decide, size]
    omega
  simp only [write, cut, whole, both, taken]
  rfl

end Sink

namespace Transcript

/-! ## What a run prints -/

/-- The sink took all of these texts. -/
def AllTaken (ps : List Printing) : Prop := ∀ p ∈ ps, p.taken = true

/-- The sink refused the last one of these texts, and the run halts on the line of its keyword. -/
def LastRefused (halt : Halt) (ps : List Printing) : Prop :=
  ∃ before p, ps = before ++ [p] ∧ AllTaken before ∧ p.taken = false ∧
    halt = .failure ⟨.sinkFull, p.keyword.line⟩

/-- Between these states the texts `ps` were printed. -/
structure Wrote (w w' : State) (ps : List Printing) : Prop where
  sink : w.machine.sink.Grows w'.machine.sink
  printings : w'.printings = w.printings ++ ps
  taken : w.machine.sink.limit = none → AllTaken ps

theorem AllTaken.nil : AllTaken [] := fun _ mem => by cases mem

theorem AllTaken.append {ps qs : List Printing} (h : AllTaken ps) (h' : AllTaken qs) :
    AllTaken (ps ++ qs) :=
  List.forall_mem_append.2 ⟨h, h'⟩

namespace Wrote

variable {w w' w'' : State} {ps qs : List Printing}

/-- Nothing was printed. -/
theorem silent (sink : w'.machine.sink = w.machine.sink) (printings : w'.printings = w.printings) :
    Wrote w w' [] :=
  ⟨sink ▸ .refl _, by rw [printings, List.append_nil], fun _ => .nil⟩

theorem trans (h : Wrote w w' ps) (h' : Wrote w' w'' qs) : Wrote w w'' (ps ++ qs) where
  sink := h.sink.trans h'.sink
  printings := by rw [h'.printings, h.printings, List.append_assoc]
  taken unlimited := (h.taken unlimited).append (h'.taken (h.sink.limit.trans unlimited))

end Wrote

theorem LastRefused.append {halt : Halt} {ps qs : List Printing} (h : AllTaken ps)
    (h' : LastRefused halt qs) : LastRefused halt (ps ++ qs) := by
  obtain ⟨before, p, rfl, taken, rest⟩ := h'
  exact ⟨ps ++ before, p, (List.append_assoc _ _ _).symm, h.append taken, rest⟩

/-- What the computation prints is written down. Only the last text may be refused, and that is
what it halts with then. -/
def Records {α : Type} (x : Transcript α) : Prop :=
  ∀ w, Ends x w (fun _ w' => ∃ ps, Wrote w w' ps ∧ AllTaken ps)
    fun halt w' => ∃ ps, Wrote w w' ps ∧ (AllTaken ps ∨ LastRefused halt ps)

theorem say_eq (keyword : Token) (text : String) (w : State) :
    say keyword text w =
      let written := w.machine.sink.write (text ++ "\n")
      let w' := ⟨w.machine.withSink written.2, w.printings ++ [⟨keyword, text, written.1⟩]⟩
      if written.1 then .ok () w' else .error (.failure ⟨.sinkFull, keyword.line⟩) w' := by
  unfold say Eval.print
  cases w.machine.sink.write (text ++ "\n") with
  | mk taken sink => cases taken <;> rfl

theorem records_closed : Closed fun x _ => Records x where
  pure _ w := ⟨[], .silent rfl rfl, .nil⟩
  bind {_ _ x _ f _} h next := by
    intro w
    rw [Ends.bind_iff]
    refine (h w).mono (fun a w₁ ⟨ps, wrote, taken⟩ => ?_) fun _ _ stopped => stopped
    refine (next a w₁).mono (fun b w₂ ⟨qs, wrote', taken'⟩ => ?_) fun halt w₂ ⟨qs, wrote', stopped⟩ => ?_
    · exact ⟨ps ++ qs, wrote.trans wrote', taken.append taken'⟩
    · exact ⟨ps ++ qs, wrote.trans wrote', stopped.imp taken.append (.append taken)⟩
  quietly {_ step} quiet := by
    intro w
    have same := Eval.sink_of_quiet quiet w.machine
    unfold Ends Transcript.quietly
    cases ran : step w.machine <;> rw [ran] at same
    · exact ⟨[], .silent same rfl, .nil⟩
    · exact ⟨[], .silent same rfl, .inl .nil⟩
  say keyword text := by
    intro w
    have grows := Sink.Grows.write w.machine.sink (text ++ "\n")
    have free := w.machine.sink.write_unlimited (text ++ "\n")
    unfold Ends
    rw [say_eq]
    cases written : w.machine.sink.write (text ++ "\n") with
    | mk taken sink =>
      rw [written] at grows free
      have wrote : Wrote w ⟨w.machine.withSink sink, w.printings ++ [⟨keyword, text, taken⟩]⟩
          [⟨keyword, text, taken⟩] :=
        ⟨grows, rfl, fun unlimited p mem => by rw [List.mem_singleton.1 mem]; exact free unlimited⟩
      cases taken with
      | true => exact ⟨_, wrote, fun p mem => by rw [List.mem_singleton.1 mem]⟩
      | false => exact ⟨_, wrote, .inr ⟨[], _, rfl, .nil, rfl, rfl⟩⟩
  within {_ enter leave x _} apart h := by
    intro w
    have inner := h ⟨enter w.machine, w.printings⟩
    have around : ∀ {w' ps}, Wrote ⟨enter w.machine, w.printings⟩ w' ps →
        Wrote w ⟨leave w.machine w'.machine, w'.printings⟩ ps := by
      intro w' ps wrote
      have before : Wrote w ⟨enter w.machine, w.printings⟩ [] :=
        .silent (apart.sink_enter w.machine) rfl
      have behind : Wrote w' ⟨leave w.machine w'.machine, w'.printings⟩ [] :=
        .silent (apart.sink_leave w.machine w'.machine) rfl
      simpa using (before.trans wrote).trans behind
    unfold Ends Transcript.within at *
    cases ran : x ⟨enter w.machine, w.printings⟩ <;> rw [ran] at inner <;>
      obtain ⟨ps, wrote, stopped⟩ := inner <;> exact ⟨ps, around wrote, stopped⟩

/-! ## Runs with a limit -/

/-- The state with a limit for the sink. -/
def State.capped (limit : Nat) (w : State) : State :=
  ⟨w.machine.withSink (w.machine.sink.cut limit), w.printings⟩

/-- `Cut limit r r'`: where a run without a limit ends like `r`, with the limit it ends like `r'`.
Either everything fits, and the limit makes no difference. Or the limit is exceeded, and the run
halts where the first text does not fit. -/
inductive Cut {α : Type} (limit : Nat) : EStateM.Result Halt State α → EStateM.Result Halt State α →
    Prop where
  | whole {r : EStateM.Result Halt State α}
      (fits : (stateOf r).machine.sink.bytes.size ≤ limit) : Cut limit r (onState (.capped limit) r)
  | refused {r : EStateM.Result Halt State α} {w : State} {before : List Printing} {p : Printing}
      (beyond : limit < (stateOf r).machine.sink.bytes.size)
      (sink : w.machine.sink = (stateOf r).machine.sink.cut limit)
      (free : before ++ [p] <+: (stateOf r).printings)
      (bounded : w.printings = before ++ [{ p with taken := false }]) :
      Cut limit r (.error (.failure ⟨.sinkFull, p.keyword.line⟩) w)

/-- With any limit the computation goes on as without, up to the text that is refused. -/
def Truncates {α : Type} (x : Transcript α) : Prop :=
  ∀ limit w, w.machine.sink.limit = none → w.machine.sink.bytes.size ≤ limit →
    Cut limit (x w) (x (w.capped limit))

theorem onState_onState {ε σ τ υ α : Type} (f : σ → τ) (g : τ → υ) (r : EStateM.Result ε σ α) :
    onState g (onState f r) = onState (fun s => g (f s)) r := by
  cases r <;> rfl

theorem Records.wrote {α : Type} {x : Transcript α} (h : Records x) (w : State) :
    ∃ ps, Wrote w (stateOf (x w)) ps := by
  have ends := h w
  unfold Ends at ends
  cases ran : x w <;> rw [ran] at ends <;> exact ⟨_, ends.choose_spec.1⟩

namespace Cut

variable {α β : Type} {limit : Nat}

/-- What a run prints behind a text that is refused with the limit makes no difference. -/
theorem bind {x : Transcript α} {f : α → Transcript β} {w : State}
    (h : Cut limit (x w) (x (w.capped limit)))
    (unlimited : (stateOf (x w)).machine.sink.limit = none)
    (records : ∀ a, Records (f a)) (truncates : ∀ a, Truncates (f a)) :
    Cut limit ((x >>= f) w) ((x >>= f) (w.capped limit)) := by
  show Cut limit (EStateM.bind x f w) (EStateM.bind x f (w.capped limit))
  unfold EStateM.bind
  generalize x w = r at *
  generalize x (w.capped limit) = r' at *
  cases h with
  | whole fits =>
    cases r with
    | ok a w₁ => exact truncates a limit w₁ unlimited fits
    | error halt w₁ => exact .whole fits
  | refused beyond sink free bounded =>
    cases r with
    | error halt w₁ => exact .refused beyond sink free bounded
    | ok a w₁ =>
      obtain ⟨ps, wrote⟩ := (records a).wrote w₁
      have more := wrote.sink.size_le
      refine .refused (Nat.lt_of_lt_of_le beyond more) ?_ ?_ bounded
      · rw [wrote.sink.cut (Nat.le_of_lt beyond)]
        exact sink
      · rw [wrote.printings]
        exact free.trans (List.prefix_append _ _)

/-- What is changed around a part of a run has nothing to do with the limit. -/
theorem leave {enter : Machine → Machine} {leave : Machine → Machine → Machine}
    (apart : Apart enter leave) {r r' : EStateM.Result Halt State α} (h : Cut limit r r')
    (m : Machine) (sink : Sink) :
    Cut limit (onState (fun w => ⟨leave m w.machine, w.printings⟩) r)
      (onState (fun w => ⟨leave (m.withSink sink) w.machine, w.printings⟩) r') := by
  have same : ∀ m m', (leave m m').sink = m'.sink := apart.sink_leave
  cases h with
  | whole fits =>
    have commutes : (fun w : State => State.mk (leave (m.withSink sink) (w.capped limit).machine)
          (w.capped limit).printings) =
        fun w => State.capped limit ⟨leave m w.machine, w.printings⟩ := by
      funext w
      simp only [State.capped, apart.leave, same]
    rw [onState_onState, commutes, ← onState_onState _ (State.capped limit)]
    refine .whole ?_
    rwa [stateOf_onState, same]
  | refused beyond sink' free bounded =>
    refine .refused ?_ ?_ ?_ bounded
    · rwa [stateOf_onState, same]
    · rw [stateOf_onState, same, same]
      exact sink'
    · rwa [stateOf_onState]

end Cut

/-- What is kept track of about a computation. -/
structure Tracked {α : Type} (x : Transcript α) (y : Eval α) : Prop where
  records : Records x
  truncates : Truncates x

theorem truncates_quietly {α : Type} {step : Eval α} (quiet : Quiet step) :
    Truncates (quietly step) := by
  intro limit w _ fits
  have sink := Eval.sink_of_quiet quiet w.machine
  have same : quietly step (w.capped limit) = onState (.capped limit) (quietly step w) := by
    unfold quietly
    show onState _ (step (w.machine.withSink (w.machine.sink.cut limit))) = _
    rw [quiet, ← sink]
    cases step w.machine <;> rfl
  rw [same]
  refine .whole ?_
  rw [quietly, stateOf_onState, sink]
  exact fits

theorem truncates_say (keyword : Token) (text : String) : Truncates (say keyword text) := by
  intro limit w unlimited fits
  have free := w.machine.sink.write_unlimited (text ++ "\n") unlimited
  have bounded := Sink.cut_write unlimited fits (text ++ "\n")
  rw [say_eq, say_eq]
  simp only [State.capped, Machine.sink_withSink, bounded, free, if_true]
  by_cases le : (w.machine.sink.write (text ++ "\n")).2.bytes.size ≤ limit
  · rw [if_pos (decide_eq_true le), decide_eq_true le]
    exact .whole le
  · rw [if_neg (by simpa using le), decide_eq_false le]
    exact .refused (p := ⟨keyword, text, true⟩) (Nat.lt_of_not_le le) rfl (List.prefix_refl _) rfl

theorem tracked_closed : Closed @Tracked where
  pure a := ⟨records_closed.pure a, fun limit w _ fits => .whole fits⟩
  bind {_ _ x y f g} h next := by
    refine ⟨records_closed.bind (y := y) (g := g) h.records fun a => (next a).records, ?_⟩
    intro limit w unlimited fits
    obtain ⟨ps, wrote⟩ := h.records.wrote w
    exact (h.truncates limit w unlimited fits).bind (wrote.sink.limit.trans unlimited)
      (fun a => (next a).records) fun a => (next a).truncates
  quietly quiet := ⟨records_closed.quietly quiet, truncates_quietly quiet⟩
  say keyword text := ⟨records_closed.say keyword text, truncates_say keyword text⟩
  within {_ enter leave x y} apart h := by
    refine ⟨records_closed.within (y := y) apart h.records, fun limit w unlimited fits => ?_⟩
    have sink := apart.sink_enter w.machine
    have inner := h.truncates limit ⟨enter w.machine, w.printings⟩ (sink ▸ unlimited) (sink ▸ fits)
    have start : State.capped limit ⟨enter w.machine, w.printings⟩ =
        ⟨enter (w.capped limit).machine, (w.capped limit).printings⟩ := by
      simp only [State.capped, apart.enter, sink]
    rw [start] at inner
    exact inner.leave apart w.machine _

end Transcript

/-! ## Sessions with a limit -/

open Transcript (State AllTaken LastRefused)

namespace Entry

/-- Nothing was refused. -/
def Whole : Entry → Prop
  | .echoed _ taken => taken = true
  | .ran _ _ printings _ => AllTaken printings

/-- If a text was refused, the run failed on the line of its keyword. -/
def Honest : Entry → Prop
  | .echoed _ _ => True
  | .ran _ result printings _ =>
    ∀ p ∈ printings, p.taken = false → result = .error (.runtime ⟨.sinkFull, p.keyword.line⟩)

/-- `Agree free bounded`: up to the first text that is refused in the second transcript both are the
same, and nothing is refused in the first one. A run that meets this text has printed the same up to
there, and fails on the line of its keyword. Nothing is said about what comes after it. -/
inductive Agree : List Entry → List Entry → Prop where
  | nil : Agree [] []
  | same {e : Entry} {free bounded : List Entry} (whole : e.Whole) (others : Agree free bounded) :
      Agree (e :: free) (e :: bounded)
  | echo {text : String} {free bounded : List Entry} :
      Agree (.echoed text true :: free) (.echoed text false :: bounded)
  | ran {source : String} {result : Except Failure Unit} {printings before : List Printing}
      {p : Printing} {output output' : ByteArray} {free bounded : List Entry}
      (taken : AllTaken printings) (upTo : before ++ [p] <+: printings)
      (cut : ∃ more, output = output' ++ more) :
      Agree (.ran source result printings output :: free)
        (.ran source (.error (.runtime ⟨.sinkFull, p.keyword.line⟩))
          (before ++ [{ p with taken := false }]) output' :: bounded)

end Entry

namespace Session

variable {limit : Nat} {s s' : Session}

/-- The session with a limit for the sink. -/
def capped (limit : Nat) (s : Session) : Session :=
  ⟨s.machine.withSink (s.machine.sink.cut limit), s.nextId⟩

/-- What is done with the limit follows what is done without. Either it is the same, and nothing is
refused. Or the limit is exceeded, and both agree up to the text that is refused. -/
inductive Follows (limit : Nat) : Entry × Session → Entry × Session → Prop where
  | whole {e : Entry} {s : Session} (whole : e.Whole) (fits : s.machine.sink.bytes.size ≤ limit) :
      Follows limit (e, s) (e, s.capped limit)
  | refused {e e' : Entry} {s s' : Session} (beyond : limit < s.machine.sink.bytes.size)
      (sink : s'.machine.sink = s.machine.sink.cut limit)
      (agree : ∀ free bounded, Entry.Agree (e :: free) (e' :: bounded)) :
      Follows limit (e, s) (e', s')

section Runs

variable {x : Transcript Unit} {y : Eval Unit}

theorem written_honest (records : Transcript.Records x) (m : Machine) (source : String) (start : Nat)
    (nextId : RefId) : (written source start nextId (x ⟨m, []⟩)).1.Honest := by
  have ends := records ⟨m, []⟩
  unfold Ends at ends
  intro p mem refused
  have taken_of : ∀ {ps}, AllTaken ps → p ∉ ps := by
    intro ps taken mem
    exact absurd (taken p mem) (by simp [refused])
  cases ran : x ⟨m, []⟩ with
  | ok _ w =>
    rw [ran] at ends mem
    obtain ⟨ps, wrote, taken⟩ := ends
    have printed : w.printings = ps := wrote.printings
    exact absurd mem (taken_of (printed ▸ taken))
  | error halt w =>
    rw [ran] at ends mem
    obtain ⟨ps, wrote, stopped⟩ := ends
    have printed : w.printings = ps := wrote.printings
    rcases stopped with taken | ⟨before, q, rfl, taken, -, rfl⟩
    · exact absurd mem (taken_of (printed ▸ taken))
    · have here : p ∈ before ++ [q] := printed ▸ mem
      rcases List.mem_append.1 here with here | here
      · exact absurd here (taken_of taken)
      · rw [List.mem_singleton.1 here]
        rfl

theorem written_follows (tracked : Transcript.Tracked x y) {m : Machine}
    (unlimited : m.sink.limit = none) (fits : m.sink.bytes.size ≤ limit) (source : String)
    (nextId : RefId) :
    Follows limit (written source m.sink.bytes.size nextId (x ⟨m, []⟩))
      (written source m.sink.bytes.size nextId (x ⟨m.withSink (m.sink.cut limit), []⟩)) := by
  obtain ⟨ps, wrote⟩ := tracked.records.wrote ⟨m, []⟩
  have cut := tracked.truncates limit ⟨m, []⟩ unlimited fits
  have taken : AllTaken (stateOf (x ⟨m, []⟩)).printings := by
    rw [wrote.printings]
    exact wrote.taken unlimited
  unfold State.capped at cut
  dsimp only at cut
  generalize x ⟨m, []⟩ = r at *
  generalize x ⟨m.withSink (m.sink.cut limit), []⟩ = r' at *
  cases cut with
  | whole fits' =>
    have bytes := Sink.bytes_cut fits'
    have result : resultOf (onState (State.capped limit) r) = resultOf r := by cases r <;> rfl
    have same : written source m.sink.bytes.size nextId (onState (State.capped limit) r) =
        ((written source m.sink.bytes.size nextId r).1,
          (written source m.sink.bytes.size nextId r).2.capped limit) := by
      simp only [written, result, stateOf_onState, State.capped, Machine.sink_withSink, bytes, capped]
    rw [same]
    exact .whole taken fits'
  | @refused w before p beyond sink free bounded =>
    refine .refused beyond sink fun others others' => ?_
    obtain ⟨m', printings⟩ := w
    cases bounded
    refine .ran taken free ?_
    have here : m'.sink = (stateOf r).machine.sink.cut limit := sink
    show ∃ more, _ = m'.sink.bytes.extract _ m'.sink.bytes.size ++ more
    rw [here]
    exact Sink.extract_cut fits (Nat.le_of_lt beyond)

end Runs

theorem act_grows (s : Session) (a : Act) : s.machine.sink.Grows (s.act a).2.machine.sink := by
  cases a with
  | echo text => exact .write _ _
  | run fuel source =>
    unfold act
    dsimp only
    cases Checked.ofSource s.nextId source with
    | mk result nextId =>
      cases result with
      | error failure => exact .refl _
      | ok c =>
        obtain ⟨ps, wrote⟩ := (Transcript.records_closed.runProgram fuel c.program).wrote
          ⟨s.machine.learn c.distances, []⟩
        exact wrote.sink

/-- A run of which a text was refused fails on the line of its keyword. -/
theorem act_honest (s : Session) (a : Act) : (s.act a).1.Honest := by
  cases a with
  | echo text => trivial
  | run fuel source =>
    unfold act
    dsimp only
    cases Checked.ofSource s.nextId source with
    | mk result nextId =>
      cases result with
      | error failure => exact fun p mem => by cases mem
      | ok c =>
        exact written_honest (Transcript.records_closed.runProgram fuel c.program) _ _ _ _

/-- As long as the limit is not exceeded, both sessions do the same. -/
theorem act_follows (unlimited : s.machine.sink.limit = none)
    (fits : s.machine.sink.bytes.size ≤ limit) (a : Act) :
    Follows limit (s.act a) ((s.capped limit).act a) := by
  cases a with
  | echo text =>
    have free := s.machine.sink.write_unlimited text unlimited
    have bounded := Sink.cut_write unlimited fits text
    unfold act capped
    dsimp only [Machine.sink_withSink]
    rw [bounded, free]
    by_cases le : (s.machine.sink.write text).2.bytes.size ≤ limit
    · rw [decide_eq_true le]
      exact .whole rfl le
    · rw [decide_eq_false le]
      exact .refused (Nat.lt_of_not_le le) rfl fun _ _ => .echo
  | run fuel source =>
    unfold act
    dsimp only [capped]
    cases Checked.ofSource s.nextId source with
    | mk result nextId =>
      cases result with
      | error failure => exact .whole .nil fits
      | ok c =>
        dsimp only [Machine.sink_withSink]
        rw [Sink.bytes_cut fits]
        exact @written_follows limit _ _ (Transcript.tracked_closed.runProgram fuel c.program)
          (s.machine.learn c.distances) unlimited fits source nextId

/-- Two sessions of which only the second one has a limit. As long as it is not exceeded they are the
same otherwise. -/
structure Bounded (limit : Nat) (s s' : Session) : Prop where
  unlimited : s.machine.sink.limit = none
  sink : s'.machine.sink = s.machine.sink.cut limit
  alike : s.machine.sink.bytes.size ≤ limit → s' = s.capped limit

theorem Bounded.act (h : Bounded limit s s') (a : Act) :
    Bounded limit (s.act a).2 (s'.act a).2 ∧
      (s.machine.sink.bytes.size ≤ limit → Follows limit (s.act a) (s'.act a)) := by
  have grows := s.act_grows a
  have unlimited := grows.limit.trans h.unlimited
  by_cases fits : s.machine.sink.bytes.size ≤ limit
  · have follows := act_follows h.unlimited fits a
    rw [← h.alike fits] at follows
    refine ⟨?_, fun _ => follows⟩
    generalize s.act a = done at *
    generalize s'.act a = done' at *
    cases follows with
    | whole _ _ => exact ⟨unlimited, rfl, fun _ => rfl⟩
    | refused beyond sink _ => exact ⟨unlimited, sink, fun le => absurd le (Nat.not_le.2 beyond)⟩
  · have beyond := Nat.lt_of_not_le fits
    have grows' := s'.act_grows a
    rw [h.sink] at grows'
    refine ⟨⟨unlimited, ?_, fun le => ?_⟩, fun le => absurd le fits⟩
    · rw [grows'.of_cut (Nat.le_of_lt beyond), grows.cut (Nat.le_of_lt beyond)]
    · exact absurd (Nat.le_trans grows.size_le le) fits

/-- What is done with the limit stays behind what is done without. -/
theorem Bounded.transcript (acts : List Act) (h : Bounded limit s s') :
    Bounded limit (s.transcript acts).2 (s'.transcript acts).2 ∧
      (s.machine.sink.bytes.size ≤ limit →
        Entry.Agree (s.transcript acts).1 (s'.transcript acts).1) := by
  induction acts generalizing s s' with
  | nil => exact ⟨h, fun _ => .nil⟩
  | cons a acts ih =>
    obtain ⟨behind, follows⟩ := h.act a
    obtain ⟨last, others⟩ := ih behind
    refine ⟨last, fun fits => ?_⟩
    have first := follows fits
    unfold Session.transcript
    dsimp only
    generalize s.act a = done at *
    generalize s'.act a = done' at *
    cases first with
    | whole whole fits' => exact .same whole (others fits')
    | refused _ _ agree => exact agree _ _

theorem transcript_honest (acts : List Act) (s : Session) :
    ∀ e ∈ (s.transcript acts).1, e.Honest := by
  induction acts generalizing s with
  | nil => exact fun e mem => by cases mem
  | cons a acts ih => exact List.forall_mem_cons.2 ⟨s.act_honest a, ih (s.act a).2⟩

/-- **A limit for the output only cuts it off.** Whatever a session does, the sink with the limit
has the first bytes of the sink without, as many as there is room for. Up to the first text that is
refused everything is the same, with all results and all output. The run that meets this text,
however deep in calls and blocks, fails on the line of the keyword that printed it, and so does any
later run of which a text is refused. What is done may be programs that run one after the other, or
an interactive session: their transcripts are what really happens. -/
theorem limit_truncates (limit : Nat) :
    (∀ acts : List Act,
      let free := (start none).transcript acts
      let bounded := (start (some limit)).transcript acts
      bounded.2.machine.sink.bytes = free.2.machine.sink.bytes.extract 0 limit ∧
        bounded.2.machine.sink.bytes.size = min limit free.2.machine.sink.bytes.size ∧
        Entry.Agree free.1 bounded.1 ∧ ∀ e ∈ bounded.1, e.Honest) ∧
    (∀ l (programs : List (Nat × String)),
      let acts := programs.map fun p => .run p.1 p.2
      (start l).runAll programs = (((start l).transcript acts).1.filterMap Entry.result?,
        ((start l).transcript acts).2)) ∧
    ∀ l fuel input,
      let acts := Repl.acts fuel input
      Repl.converse fuel l input = ⟨((start l).transcript acts).2,
        (((start l).transcript acts).1.filterMap Entry.report? ++
          Repl.unread (Text.lines input)).toArray⟩ := by
  refine ⟨fun acts => ?_, fun l programs => runAll_eq_transcript programs (start l),
    fun l fuel input => Repl.converse_eq_transcript fuel l input⟩
  have empty : (Sink.empty none).cut limit = Sink.empty (some limit) :=
    congrArg (Sink.mk · (some limit)) (extract_of_size_le (Nat.zero_le limit))
  have begun : Bounded limit (start none) (start (some limit)) := by
    refine ⟨rfl, empty.symm, fun _ => ?_⟩
    show _ = Session.mk ((Machine.start none).withSink ((Sink.empty none).cut limit)) 0
    rw [empty]
    rfl
  obtain ⟨last, agree⟩ := begun.transcript acts
  refine ⟨?_, ?_, agree (Nat.zero_le limit), transcript_honest acts _⟩
  · rw [last.sink]
    rfl
  · rw [last.sink, Sink.size_cut]

end Session

end Lox
