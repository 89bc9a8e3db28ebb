import InkHole.StateFiles
import InkHole.Transport

/-! The calls of a handler that are no file calls, and what the bytes of a stream make of the file
they are received into. -/

set_option linter.unusedSectionVars false

namespace InkHole

open InkHole.CoreM Fallible FileTree

section Receiving

variable [Externals] {α : Type} {w : World} {I : World → Prop} {F : CoreError → World → Prop}

/-- The predicate looks at the files only. -/
def OfFiles (I : World → Prop) : Prop := ∀ v v' : World, v'.fs = v.fs → I v → I v'

def Effect.answer : Effect → Option TransferResponse
  | .responded response => some response
  | _ => none

/-- What has been answered to senders. -/
def World.answered (w : World) : List TransferResponse := w.log.filterMap Effect.answer

theorem along_emit {Q : Unit → World → Prop} {event : TransferEvent}
    (hq : ∀ v, v.fs = w.fs → I v ∧ Q () v) : Along I Q F (emit event) w := by
  rw [along_run]
  simp only [emit, ExceptT.run_mk, Program.along_call, Program.along_ret]
  exact hq _ rfl

theorem along_respond {Q : Unit → World → Prop} {response : TransferResponse}
    (hq : ∀ v, v.fs = w.fs → v.answered = w.answered ++ [response] → I v ∧ Q () v) :
    Along I Q F (respond response) w := by
  rw [along_run]
  simp only [respond, ExceptT.run_mk, Program.along_call, Program.along_ret]
  exact hq _ rfl List.filterMap_append

theorem along_rejecting {Q : α → World → Prop} {x : CoreM α} (h : Along I Q F x w) (hi : I w) (hI : OfFiles I)
    (hF : ∀ e, OfFiles (F e)) : Along I Q F (rejecting x) w := by
  rw [along_run, rejecting, ExceptT.run_mk, Program.along_bind]
  refine ((along_run.mp h).strengthen hi).post fun r v hr => ?_
  cases r with
  | ok a => exact hr.1
  | error e => exact ⟨hI v _ rfl hr.2, hF e v _ rfl hr.1⟩

/-- A program ends in one of the worlds it goes through. -/
theorem Fallible.Along.closed {Q : α → World → Prop} {x : CoreM α} (h : Along I Q F x w) (hi : I w) :
    Along I (fun a v => Q a v ∧ I v) (fun e v => F e v ∧ I v) x w := by
  refine along_run.mpr (((along_run.mp h).strengthen hi).post fun r v hr => ?_)
  cases r with
  | ok a => exact hr
  | error e => exact hr

/-- The file at `p` holds what it held at first and then the bytes `taken`. -/
structure Filled (p : Path) (start taken : Bytes) (w w' : World) : Prop where
  there : ∃ c : Contents, w'.fs.get p = some (.file c) ∧ c.toBytes = start ++ taken
  off : ∀ q, q ≠ p → w'.fs.get q = w.fs.get q

theorem Filled.same {p : Path} {start taken : Bytes} {v v' : World} (h : Filled p start taken w v)
    (hfs : v'.fs = v.fs) : Filled p start taken w v' := by
  refine ⟨?_, fun q hq => ?_⟩
  · rw [hfs]
    exact h.there
  · rw [hfs]
    exact h.off q hq

theorem filled_start {p : Path} {c : Contents} (h : w.fs.get p = some (.file c)) : Filled p c.toBytes [] w w :=
  ⟨⟨c, h, (List.append_nil _).symm⟩, fun _ _ => rfl⟩

/-- What a stream has brought of the bytes asked for. -/
structure Brought (incoming : Incoming) (wanted : Nat) (taken : Bytes) (rest : Incoming) : Prop where
  bytes : incoming.bytes = taken ++ rest.bytes
  length : taken.length = wanted
  ending : rest.ending = incoming.ending

/-- The stream brings as much as is missing, and ends. -/
def Incoming.Whole (incoming : Incoming) (wanted : Nat) : Prop :=
  incoming.bytes.length = wanted ∧ incoming.ending = .finished

theorem Incoming.Whole.read {incoming rest : Incoming} {wanted : Nat} {taken : Bytes} (h : incoming.Whole wanted)
    (hb : Brought incoming wanted taken rest) (n : Nat) : rest.read n = .ok none := by
  have hlength := congrArg List.length hb.bytes
  rw [List.length_append, h.1, hb.length] at hlength
  have hnil : rest.bytes = [] := List.eq_nil_of_length_eq_zero (by omega)
  simp [Incoming.read, hnil, hb.ending, h.2]

/-- The bytes of a stream come to the end of a file, until there are as many as wanted. -/
theorem along_receiveInto {r : Receiving} {fuel received : Nat} {incoming : Incoming} {start : Bytes}
    {w₀ : World} {done : Bytes}
    (hwrite : ∀ n chunk (c : Contents), c.toBytes.length = n → (r.write n chunk c).toBytes = c.toBytes ++ chunk)
    (hp : r.path ≠ []) (hfuel : r.size ≤ received + fuel) (hlength : (start ++ done).length = received)
    (h : Filled r.path start done w₀ w)
    (hi : ∀ taken v, taken <+: incoming.bytes → taken.length ≤ r.size - received →
      Filled r.path start (done ++ taken) w₀ v → I v)
    (hf : ∀ v, incoming.bytes.length < r.size - received → Filled r.path start (done ++ incoming.bytes) w₀ v →
      ∀ e, F e v) :
    Along I (fun rest v => ∃ taken, Brought incoming (r.size - received) taken rest ∧
      Filled r.path start (done ++ taken) w₀ v) F (receiveInto r fuel received incoming) w := by
  have hnone : ∀ {received incoming w} {done : Bytes}, r.size ≤ received → Filled r.path start done w₀ w →
      ∃ taken, Brought incoming (r.size - received) taken incoming ∧ Filled r.path start (done ++ taken) w₀ w := by
    intro received incoming w done hle h
    refine ⟨[], ⟨rfl, ?_, rfl⟩, by rwa [List.append_nil]⟩
    rw [List.length_nil]
    omega
  induction fuel generalizing received incoming w done with
  | zero => exact along_pure (hnone (by omega) h)
  | succ fuel ih =>
    rw [receiveInto]
    by_cases hmore : r.size ≤ received
    · rw [if_pos hmore]
      exact along_pure (hnone hmore h)
    rw [if_neg hmore]
    have hi₀ : ∀ v, Filled r.path start done w₀ v → I v := fun v hv =>
      hi [] v (List.nil_prefix) (Nat.zero_le _) (by rwa [List.append_nil])
    refine along_bind (Q := fun read v => w = v ∧
      incoming.read (min (r.size - received) transferBufferSize) = .ok read) (along_lift (fun _ hread => ⟨rfl, hread⟩)
        fun e he => ?_) ?_
    · rw [Incoming.read] at he
      split at he
      · next hempty =>
        have hnil := List.isEmpty_iff.mp hempty
        refine hf w ?_ (by rwa [hnil, List.append_nil]) e
        rw [hnil, List.length_nil]
        omega
      · cases he
    rintro read _ ⟨rfl, hread⟩
    cases read with
    | none =>
      obtain ⟨c, hc, -⟩ := h.there
      refine along_bind (Q := fun _ v => w = v) (along_sync hc (hi₀ w h) rfl) ?_
      rintro _ _ rfl
      rw [Incoming.read] at hread
      split at hread
      · next hempty =>
        have hnil := List.isEmpty_iff.mp hempty
        refine along_throw (hf w ?_ (by rwa [hnil, List.append_nil]) _)
        rw [hnil, List.length_nil]
        omega
      · cases hread
    | some read =>
      obtain ⟨chunk, rest⟩ := read
      have hchunk := Incoming.read_length hread
      obtain ⟨n, hn, hne, rfl, rfl⟩ := Incoming.read_some hread
      have hbuffer : 0 < transferBufferSize := by decide
      obtain ⟨c, hc, hbytes⟩ := h.there
      have hcl : c.toBytes.length = received := by rw [hbytes, hlength]
      obtain ⟨t, ht, hset⟩ := editAt_file hc hp (r.write received (incoming.bytes.take n))
      have hfill : ∀ v : World, v.fs = t → Filled r.path start (done ++ incoming.bytes.take n) w₀ v := by
        rintro v rfl
        refine ⟨⟨_, hset.at, ?_⟩, fun q hq => (hset.off hq).trans (h.off q hq)⟩
        rw [hwrite _ _ _ hcl, hbytes, List.append_assoc]
      have hi₁ : ∀ v : World, v.fs = t → I v := fun v hv =>
        hi _ v (List.take_prefix _ _) (by omega) (hfill v hv)
      refine along_bind (Q := fun _ v => v.fs = t) (along_fs_done ht fun v hv => ⟨hi₁ v hv, hv⟩) ?_
      intro _ v hv
      refine along_bind (Q := fun _ v => v.fs = t) (along_emit fun v' hv' =>
        ⟨hi₁ v' (hv'.trans hv), hv'.trans hv⟩) ?_
      intro _ v hv
      have hlen : (start ++ (done ++ incoming.bytes.take n)).length = received + (incoming.bytes.take n).length := by
        rw [← List.append_assoc, List.length_append, hlength]
      have hjoin : ∀ more, done ++ incoming.bytes.take n ++ more = done ++ (incoming.bytes.take n ++ more) := fun more =>
        List.append_assoc _ _ _
      refine (ih (by have hpos := List.length_pos_iff.mpr hne; rw [List.length_take] at hchunk ⊢; omega) hlen
        (hfill v hv) (fun taken v' htaken hle hv' => ?_) fun v' hless hv' => ?_).mono (fun _ h => h) ?_ fun _ _ h => h
      · refine hi (incoming.bytes.take n ++ taken) v' ?_ ?_ (by rwa [hjoin] at hv')
        · obtain ⟨more, hmore⟩ := htaken
          exact ⟨more, by rw [List.append_assoc, hmore, List.take_append_drop]⟩
        · rw [List.length_append]
          omega
      · refine hf v' ?_ (by rwa [hjoin, List.take_append_drop] at hv')
        have htotal := congrArg List.length (List.take_append_drop n incoming.bytes)
        have hleft : (incoming.bytes.drop n).length < r.size - (received + (incoming.bytes.take n).length) := hless
        rw [List.length_append] at htotal
        omega
      · rintro rest v' ⟨taken, hbrought, hv'⟩
        refine ⟨incoming.bytes.take n ++ taken, ⟨?_, ?_, hbrought.ending⟩, by rwa [hjoin] at hv'⟩
        · rw [List.append_assoc, ← hbrought.bytes, List.take_append_drop]
        · rw [List.length_append, hbrought.length]
          omega

end Receiving

end InkHole
