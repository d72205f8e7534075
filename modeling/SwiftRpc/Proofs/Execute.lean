import Mathlib.Data.List.Basic
import SwiftRpc.Plugin.Execute
import SwiftRpc.Proofs.Codec

/-!
# What an execution leaves behind

Whatever the reader does, an execution either gets the whole input or fails with what the reader
failed with (`readAll_of_gives`, `readAll_of_failsWith`). With the input it goes on as `runBytes`
does, but in stages: it fails without having touched the writer, or it sends the response. What
becomes of the response is up to the writer (`send_of_room`, `send_of_limit`).
-/

namespace SwiftRpc.Plugin

open SwiftRpc.Descriptor
open SwiftRpc.Wire

/-! ## Readers -/

/-- The reader gives these bytes, in chunks of any size, and then comes to its end. -/
def Gives (steps : List ReadStep) (input : Bytes) : Prop :=
  ∃ (chunks : List Bytes) (rest : List ReadStep), [] ∉ chunks ∧ chunks.flatten = input ∧
    steps = chunks.map .chunk ++ rest ∧ (rest = [] ∨ ∃ later, rest = .chunk [] :: later)

/-- After some chunks the reader fails. -/
def FailsWith (steps : List ReadStep) (text : String) : Prop :=
  ∃ (chunks : List Bytes) (later : List ReadStep), [] ∉ chunks ∧
    steps = chunks.map .chunk ++ .failure text :: later

theorem readAll_chunks {chunks : List Bytes} (h : [] ∉ chunks) (rest : List ReadStep) :
    readAll (chunks.map .chunk ++ rest) = (readAll rest).map (chunks.flatten ++ ·) := by
  induction chunks with
  | nil => cases hr : readAll rest <;> simp [hr, Except.map]
  | cons bytes chunks ih =>
    rw [List.mem_cons, not_or] at h
    obtain ⟨hne, hrest⟩ := h
    cases bytes with
    | nil => exact absurd rfl hne
    | cons b bytes =>
      rw [List.map_cons, List.cons_append, readAll, ih hrest, List.flatten_cons]
      cases readAll rest <;> simp [Except.map]

/-- Every reader comes to its end or fails. -/
theorem gives_or_failsWith (steps : List ReadStep) :
    (∃ input, Gives steps input) ∨ ∃ text, FailsWith steps text := by
  induction steps with
  | nil => exact Or.inl ⟨[], [], [], by simp, rfl, rfl, Or.inl rfl⟩
  | cons step rest ih =>
    cases step with
    | failure text => exact Or.inr ⟨text, [], rest, by simp, rfl⟩
    | chunk bytes =>
      by_cases hb : bytes = []
      · subst hb
        exact Or.inl ⟨[], [], .chunk [] :: rest, by simp, rfl, rfl, Or.inr ⟨rest, rfl⟩⟩
      · rcases ih with ⟨input, chunks, end_, hne, rfl, rfl, hend⟩ | ⟨text, chunks, later, hne, rfl⟩
        · refine Or.inl ⟨_, bytes :: chunks, end_, ?_, rfl, rfl, hend⟩
          simp [Ne.symm hb, hne]
        · refine Or.inr ⟨text, bytes :: chunks, later, ?_, rfl⟩
          simp [Ne.symm hb, hne]

theorem readAll_of_gives {steps : List ReadStep} {input : Bytes} (h : Gives steps input) :
    readAll steps = .ok input := by
  obtain ⟨chunks, rest, hne, rfl, rfl, rfl | ⟨later, rfl⟩⟩ := h
  · rw [readAll_chunks hne]
    simp [readAll, Except.map]
  · rw [readAll_chunks hne]
    simp [readAll, Except.map]

theorem readAll_of_failsWith {steps : List ReadStep} {text : String}
    (h : FailsWith steps text) : readAll steps = .error text := by
  obtain ⟨chunks, later, hne, rfl⟩ := h
  rw [readAll_chunks hne, readAll]
  rfl

/-! ## Writers -/

namespace Sink

variable {s : Sink} {bytes : Bytes}

theorem write_of_room
    (h : ∀ limit, s.limit = some limit → s.written.length + bytes.length ≤ limit) :
    s.write bytes = (.ok (), { s with written := s.written ++ bytes }) := by
  rw [write]
  cases hl : s.limit with
  | none => rfl
  | some limit =>
    have hroom : bytes.length ≤ limit - s.written.length := by
      have := h limit hl
      omega
    simp only [if_pos hroom]

theorem write_of_limit {limit : Nat} (hl : s.limit = some limit)
    (h : limit - s.written.length < bytes.length) :
    s.write bytes =
      (.error s.writeFailure,
        { s with written := s.written ++ bytes.take (limit - s.written.length) }) := by
  rw [write, hl]
  simp only [if_neg (Nat.not_le_of_lt h)]

/-- Writes the bytes and flushes, up to the first failure. -/
def send (s : Sink) (bytes : Bytes) : Except PluginError Unit × Sink :=
  match s.write bytes with
  | (.error text, s') => (.error (.io text), s')
  | (.ok (), s') => (s'.flush.1.mapError .io, s'.flush.2)

/-- What flushing comes to, by the text it fails with. -/
def flushed : Option String → Except PluginError Unit
  | none => .ok ()
  | some text => .error (.io text)

theorem send_of_room
    (h : ∀ limit, s.limit = some limit → s.written.length + bytes.length ≤ limit) :
    s.send bytes =
      (flushed s.flushFailure,
        { s with written := s.written ++ bytes, flushes := s.flushes + 1 }) := by
  rw [send, write_of_room h]
  simp only [flush]
  cases s.flushFailure <;> rfl

theorem send_of_limit {limit : Nat} (hl : s.limit = some limit)
    (h : limit - s.written.length < bytes.length) :
    s.send bytes =
      (.error (.io s.writeFailure),
        { s with written := s.written ++ bytes.take (limit - s.written.length) }) := by
  rw [send, write_of_limit hl h]

/-- The sink once the level was set that the request asks for. -/
def leveled (s : Sink) (r : Request) : Sink :=
  { s with level? := some (Options.threshold (logLevel r)) }

end Sink

/-! ## Stages of an execution -/

section Stages

variable {steps : List ReadStep} {input : Bytes}

theorem simulate_of_failsWith {text : String} (h : FailsWith steps text) (sink : Sink) :
    simulate steps sink = (.error (.io text), sink) := by
  have hread : (simulated steps).read = pure (.error text) := by
    rw [simulated, readAll_of_failsWith h]
  rw [simulate, execute, hread]
  rfl

theorem read_simulated (h : Gives steps input) :
    (simulated steps).read = pure (.ok input) := by
  rw [simulated, readAll_of_gives h]

theorem bind_apply {α β : Type} (x : StateM Sink α) (f : α → StateM Sink β) (s : Sink) :
    (x >>= f) s = f (x s).1 (x s).2 := rfl

/-- All that happens before a request is answered is that the level is set. -/
theorem simulate_of_decodeRequest (h : Gives steps input) {r : Request}
    (hdecode : decodeRequest input = some r) (sink : Sink) :
    simulate steps sink =
      match run r with
      | .error e => (.error e, sink.leveled r)
      | .ok response => (sink.leveled r).send (encodeResponse response) := by
  simp only [simulate, execute, read_simulated h, pure_bind, hdecode]
  rw [bind_apply]
  cases run r with
  | error e => rfl
  | ok response =>
    change ((simulated steps).write (encodeResponse response) >>= _) _ =
      (sink.leveled r).send (encodeResponse response)
    rw [bind_apply, Sink.send]
    have hwrite : (simulated steps).write (encodeResponse response)
        ((simulated steps).setLevel (Options.threshold (logLevel r)) sink).2 =
          (sink.leveled r).write (encodeResponse response) := rfl
    rw [hwrite]
    rcases (sink.leveled r).write (encodeResponse response) with ⟨text | -, sink'⟩
    · rfl
    · change ((simulated steps).flush >>= _) sink' =
        (sink'.flush.1.mapError PluginError.io, sink'.flush.2)
      rw [bind_apply]
      have hflush : (simulated steps).flush sink' = sink'.flush := rfl
      rw [hflush]
      rcases sink'.flush with ⟨text | -, sink''⟩
      · rfl
      · rfl

theorem simulate_of_runBytes_error (h : Gives steps input) {e : PluginError}
    (he : runBytes input = .error e) (sink : Sink) :
    ∃ level?, simulate steps sink = (.error e, { sink with level? }) := by
  cases hdecode : decodeRequest input with
  | none =>
    rw [runBytes, hdecode] at he
    cases he
    refine ⟨sink.level?, ?_⟩
    simp only [simulate, execute, read_simulated h, pure_bind, hdecode]
    rfl
  | some r =>
    rw [runBytes_of_decodeRequest hdecode] at he
    have hsimulate := simulate_of_decodeRequest h hdecode sink
    rw [Outcome.map_eq_error.1 he] at hsimulate
    exact ⟨_, hsimulate⟩

theorem simulate_of_runBytes_ok (h : Gives steps input) {output : Bytes}
    (ho : runBytes input = .ok output) (sink : Sink) :
    ∃ level?, simulate steps sink = ({ sink with level? } : Sink).send output := by
  cases hdecode : decodeRequest input with
  | none =>
    rw [runBytes, hdecode] at ho
    cases ho
  | some r =>
    rw [runBytes_of_decodeRequest hdecode] at ho
    obtain ⟨response, hrun, rfl⟩ := Outcome.map_eq_ok.1 ho
    have hsimulate := simulate_of_decodeRequest h hdecode sink
    rw [hrun] at hsimulate
    exact ⟨_, hsimulate⟩

end Stages

/-- Nothing was written to the sink, and it was never flushed. -/
def Sink.Untouched (s : Sink) : Prop := s.written = [] ∧ s.flushes = 0

/-- **All or nothing.** If there is no response, be it that the input cannot be read, that it is no
request or that the request is refused, the execution fails with that error and does not touch the
writer. A response, be it files or an error, is written as far as the writer takes it, and flushed
once if it is taken as a whole. With streams that do not fail the execution gives what the plugin
gives on the bytes. -/
theorem simulate_exact (steps : List ReadStep) (limit : Option Nat) (writeFailure : String)
    (flushFailure : Option String) :
    let after := simulate steps { limit, writeFailure, flushFailure }
    ((∃ input, Gives steps input) ∨ ∃ text, FailsWith steps text) ∧
    (∀ text, FailsWith steps text → after.1 = .error (.io text) ∧ after.2.Untouched) ∧
    (∀ input, Gives steps input →
      (decodeRequest input = none → after.1 = .error .decode ∧ after.2.Untouched) ∧
      (∀ r e, decodeRequest input = some r → run r = .error e →
        after.1 = .error e ∧ after.2.Untouched) ∧
      (∀ r response, decodeRequest input = some r → run r = .ok response →
        (∀ room, limit = some room → room < (encodeResponse response).length →
          after.1 = .error (.io writeFailure) ∧
            after.2.written = (encodeResponse response).take room ∧ after.2.flushes = 0) ∧
        ((∀ room, limit = some room → (encodeResponse response).length ≤ room) →
          after.1 = Sink.flushed flushFailure ∧ after.2.written = encodeResponse response ∧
            after.2.flushes = 1)) ∧
      (limit = none → flushFailure = none →
        (∀ e, runBytes input = .error e → after.1 = .error e ∧ after.2.Untouched) ∧
        ∀ output, runBytes input = .ok output → after.1 = .ok () ∧ after.2.written = output)) := by
  intro after
  refine ⟨gives_or_failsWith steps, ?_, ?_⟩
  · intro text h
    have hafter : after = _ := simulate_of_failsWith h _
    rw [hafter]
    exact ⟨rfl, rfl, rfl⟩
  · intro input h
    have herror : ∀ e, runBytes input = .error e → after.1 = .error e ∧ after.2.Untouched := by
      intro e he
      obtain ⟨level?, hafter⟩ : ∃ level?, after = _ := simulate_of_runBytes_error h he _
      rw [hafter]
      exact ⟨rfl, rfl, rfl⟩
    have hroom : ∀ output, runBytes input = .ok output →
        (∀ room, limit = some room → output.length ≤ room) →
        after.1 = Sink.flushed flushFailure ∧ after.2.written = output ∧ after.2.flushes = 1 := by
      intro output ho hroom
      obtain ⟨level?, hafter⟩ : ∃ level?, after = _ := simulate_of_runBytes_ok h ho _
      rw [hafter, Sink.send_of_room (by simpa using hroom)]
      exact ⟨rfl, rfl, rfl⟩
    refine ⟨?_, ?_, ?_, ?_⟩
    · intro hdecode
      exact herror .decode (by rw [runBytes, hdecode])
    · intro r e hdecode hrun
      exact herror e (by rw [runBytes_of_decodeRequest hdecode, hrun]; rfl)
    · intro r response hdecode hrun
      have ho : runBytes input = .ok (encodeResponse response) := by
        rw [runBytes_of_decodeRequest hdecode, hrun]
        rfl
      refine ⟨?_, hroom _ ho⟩
      intro room hl hlt
      obtain ⟨level?, hafter⟩ : ∃ level?, after = _ := simulate_of_runBytes_ok h ho _
      rw [hafter, Sink.send_of_limit hl hlt]
      exact ⟨rfl, rfl, rfl⟩
    · rintro rfl rfl
      refine ⟨herror, ?_⟩
      intro output ho
      obtain ⟨hresult, hwritten, -⟩ := hroom output ho (by simp)
      exact ⟨hresult, hwritten⟩

/-- A request for a file without services is answered with two bytes. Read in two chunks, with a
writer that takes one byte, the answer is cut off and the writer is not flushed. -/
theorem simulate_exact_cut :
    let r : Request := { filesToGenerate := ["a"], files := [{ name? := some "a" }] }
    let steps : List ReadStep :=
      [.chunk ((encodeRequest r).take 4), .chunk ((encodeRequest r).drop 4)]
    let after := simulate steps { limit := some 1, writeFailure := "full" }
    Gives steps (encodeRequest r) ∧ after.1 = .error (.io "full") ∧ after.2.written = [16] ∧
      after.2.flushes = 0 := by
  intro r steps after
  have hgives : Gives steps (encodeRequest r) := by
    refine ⟨[(encodeRequest r).take 4, (encodeRequest r).drop 4], [], ?_, ?_, rfl, Or.inl rfl⟩
    · decide +kernel
    · simp
  have hdecode : decodeRequest (encodeRequest r) = some r := by
    rw [decodeRequest_encodeRequest (by decide +kernel), if_pos (by decide +kernel)]
  have hrun : run r = .ok { supportedFeatures? := some 1 } := by
    apply Outcome.toOption_eq_some.1
    decide +kernel
  obtain ⟨-, -, hinput⟩ := simulate_exact steps (some 1) "full" none
  obtain ⟨-, -, hsent, -⟩ := hinput _ hgives
  obtain ⟨hresult, hwritten, hflushes⟩ := (hsent r _ hdecode hrun).1 1 rfl (by decide +kernel)
  exact ⟨hgives, hresult, hwritten.trans (by decide +kernel), hflushes⟩

end SwiftRpc.Plugin
