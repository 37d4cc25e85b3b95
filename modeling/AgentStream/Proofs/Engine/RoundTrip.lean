/-
# Metadata that is written and read again

The outputs of an engine, the metadata of its graphs and the command that resumes one are read back
from their bytes.  Free values have to be held as a program holds them, and what may be left out
must not be `null`.

* `Json.Portable` : a free value that is written and read again;
* `NodeReport.Sized`, `StepReport.Portable`, `CustomReport.Portable`, `ResumeCommand.Portable` :
  what metadata has to be like;
* `NodeReport.decode_toJson`, `StepReport.decode_toJson`, … : they are decoded from their written
  form;
* `contract_readBack` : **outputs, metadata and commands are read back**.
-/
import AgentStream.Engine.Graph
import AgentStream.Proofs.Engine.Outputs
import AgentStream.Proofs.Json.Shapes

namespace AgentStream

namespace Json

/-- A free value that is written and read again.  That it is in sorted form and its integers in range
is so of every value that a program can hold; the numerals of its doubles have to stand for them. -/
structure Portable (j : Json) : Prop where
  sorted : j.Sorted
  ranged : j.Ranged
  doubles : ∀ x, double x ∈ j.scalars → x.Legible

variable {j : Json}

theorem Portable.legible (h : j.Portable) : j.Legible := legible_of h.doubles h.ranged

theorem portable_of_integral (hs : j.Sorted) (h : j.integral = true) : j.Portable where
  sorted := hs
  ranged _ hi := scalars_of_integral h _ hi
  doubles _ hx := nomatch scalars_of_integral h _ hx

end Json

theorem Signed.intRange {i : Int} (h : Signed i) : Json.intRange i = true :=
  decide_eq_true ⟨h.1, Int.le_trans h.2 (by decide)⟩

namespace Engine

open Record
open Json (everywhere_append everywhere_member everywhere_optional everywhere_optional_map
  everywhere_nonempty portable_of_integral writable_str writable_int writable_obj legible_obj
  legible_str legible_int legible_double)

/-! ## Nodes -/

namespace NodeReport

/-- The numbers of a report have their bits. -/
structure Sized (r : NodeReport) : Prop where
  attempt : ∀ n ∈ r.attempt, n < 2 ^ 32
  stepNumber : ∀ i ∈ r.stepNumber, Signed i

variable {r : NodeReport}

theorem toJson_eq (r : NodeReport) : r.toJson = .obj (Json.member "nodeId" (.str r.nodeId)
    ++ Json.member "nodeType" (.str r.nodeType) ++ Json.member "phase" (.str r.phase.name)
    ++ Json.optional "attempt" (r.attempt.map fun n : Nat => .int n)
    ++ Json.optional "stepNumber" (r.stepNumber.map .int)
    ++ Json.optional "error" (r.error.map .str)
    ++ Json.optional "modelName" (r.modelName.map .str)) := by
  rw [toJson]
  cases r.attempt <;> rfl

theorem decode_toJson (h : r.Sized) (o : Origin) :
    record.decode o (Doc.ofJson r.toJson) = .ok r := by
  have hphase : Decoder.oneOf Phase.nodeTable o (.str r.phase.name) = .ok r.phase := by
    cases r.phase <;> rfl
  rw [toJson_eq]
  refine Fits.decode ?_ (by decide)
  exact Fits.seq (Fits.seq (Fits.seq (Fits.seq (Fits.seq (Fits.seq
    (Fits.map mk (fits_string _ _))
    (fits_string _ _))
    (fits_field hphase))
    (fits_optional (j := fun n : Nat => .int n) (fun _ _ => nofun) fun n hn =>
      Decoder.unsigned_ok (h.attempt n hn) o))
    (fits_optional (j := Json.int) (fun _ _ => nofun) fun i hi =>
      Decoder.signed_ok (h.stepNumber i hi) o))
    (fits_option_string _ _))
    (fits_option_string _ _)

theorem writable_toJson (h : r.Sized) : r.toJson.Writable 1 := by
  rw [toJson_eq]
  refine writable_obj ?_
  simp only [everywhere_append, everywhere_member]
  exact ⟨⟨⟨⟨⟨⟨writable_str _, writable_str _⟩, writable_str _⟩,
    everywhere_optional_map fun n hn => writable_nat (h.attempt n hn)⟩,
    everywhere_optional_map fun i hi => writable_int (h.stepNumber i hi).intRange⟩,
    everywhere_optional_map fun s _ => writable_str s⟩,
    everywhere_optional_map fun s _ => writable_str s⟩

end NodeReport

/-! ## Steps -/

namespace StepReport

/-- A report that is written and read again; its interrupt value must not be `null`. -/
structure Portable (r : StepReport) : Prop where
  stepNumber : Signed r.stepNumber
  interruptValue : ∀ j ∈ r.interruptValue, j.Portable ∧ j ≠ .null
  shallow : r.toJson.depth ≤ Doc.nestingLimit

variable {r : StepReport}

theorem decode_toJson (h : r.Portable) (o : Origin) :
    record.decode o (Doc.ofJson r.toJson) = .ok r := by
  rw [toJson]
  refine Fits.decode ?_ (by decide)
  exact Fits.seq (Fits.seq
    (Fits.map mk (fits_field (Decoder.signed_ok h.stepNumber o)))
    (fits_nonempty _ _))
    (fits_option_any _ fun j hj => (h.interruptValue j hj).imp_left (·.sorted))

theorem writable_toJson (h : r.Portable) : r.toJson.Writable Doc.nestingLimit := by
  refine ⟨legible_obj ?_, h.shallow⟩
  simp only [everywhere_append, everywhere_member]
  exact ⟨⟨legible_int h.stepNumber.intRange, everywhere_nonempty (legible_str _)⟩,
    everywhere_optional.2 fun j hj => (h.interruptValue j hj).1.legible⟩

end StepReport

/-! ## Models and tools -/

theorem ModelReport.decode_toJson (r : ModelReport) (o : Origin) :
    record.decode o (Doc.ofJson r.toJson) = .ok r := by
  rw [toJson]
  refine Fits.decode ?_ (by decide)
  exact Fits.seq (Fits.seq (Fits.map mk (fits_string _ _)) (fits_string _ _)) (fits_string _ _)

theorem ModelReport.writable_toJson (r : ModelReport) : r.toJson.Writable 1 := by
  refine writable_obj ?_
  simp only [everywhere_append, everywhere_member]
  exact ⟨⟨writable_str _, writable_str _⟩, writable_str _⟩

theorem ToolReport.decode_toJson (r : ToolReport) (o : Origin) :
    record.decode o (Doc.ofJson r.toJson) = .ok r := by
  have hphase : Decoder.oneOf Phase.table o (.str r.phase.name) = .ok r.phase := by
    cases r.phase <;> rfl
  rw [toJson]
  refine Fits.decode ?_ (by decide)
  exact Fits.seq (Fits.seq (Fits.seq (Fits.seq
    (Fits.map mk (fits_string _ _))
    (fits_string _ _))
    (fits_field hphase))
    (fits_string _ _))
    (fits_string _ _)

theorem ToolReport.writable_toJson (r : ToolReport) : r.toJson.Writable 1 := by
  refine writable_obj ?_
  simp only [everywhere_append, everywhere_member]
  exact ⟨⟨⟨⟨writable_str _, writable_str _⟩, writable_str _⟩, writable_str _⟩, writable_str _⟩

/-! ## Events of nodes -/

namespace CustomReport

/-- A report that is written and read again: the text of its progress is that of a number, and its
payload is not `null`. -/
structure Portable (r : CustomReport) : Prop where
  progress : r.progress.Legible
  payload : ∀ j ∈ r.payload, j.Portable ∧ j ≠ .null
  stepNumber : Signed r.stepNumber
  timestamp : Signed r.timestamp
  shallow : r.toJson.depth ≤ Doc.nestingLimit

variable {r : CustomReport}

theorem decode_toJson (h : r.Portable) (o : Origin) :
    record.decode o (Doc.ofJson r.toJson) = .ok r := by
  have hcategory : Decoder.oneOf Category.table o (.str r.category.name) = .ok r.category := by
    cases r.category <;> rfl
  rw [toJson]
  refine Fits.decode ?_ (by decide)
  exact Fits.seq (Fits.seq (Fits.seq (Fits.seq (Fits.seq (Fits.seq (Fits.seq
    (Fits.map mk (fits_field hcategory))
    (fits_string _ _))
    (fits_string _ _))
    (fits_string _ _))
    (fits_field rfl))
    (fits_option_any _ fun j hj => (h.payload j hj).imp_left (·.sorted)))
    (fits_field (Decoder.signed_ok h.stepNumber o)))
    (fits_field (Decoder.signed_ok h.timestamp o))

theorem writable_toJson (h : r.Portable) : r.toJson.Writable Doc.nestingLimit := by
  refine ⟨legible_obj ?_, h.shallow⟩
  simp only [everywhere_append, everywhere_member]
  exact ⟨⟨⟨⟨⟨⟨⟨legible_str _, legible_str _⟩, legible_str _⟩, legible_str _⟩,
    legible_double h.progress⟩, everywhere_optional.2 fun j hj => (h.payload j hj).1.legible⟩,
    legible_int h.stepNumber.intRange⟩, legible_int h.timestamp.intRange⟩

end CustomReport

/-! ## Commands -/

namespace ResumeCommand

/-- A command that is written and read again; its value must not be `null`. -/
structure Portable (c : ResumeCommand) : Prop where
  resumeMap : ∀ members ∈ c.resumeMap, (Json.obj members).Portable
  resume : ∀ j ∈ c.resume, j.Portable ∧ j ≠ .null
  shallow : c.toJson.depth ≤ Doc.nestingLimit

variable {c : ResumeCommand}

theorem decode_toJson (h : c.Portable) (o : Origin) :
    record.decode o (Doc.ofJson c.toJson) = .ok c := by
  have hmap : ∀ members ∈ c.resumeMap,
      Decoder.object o (Doc.ofJson (.obj members)) = .ok members := fun members hm =>
    (Decoder.takes_object (h.resumeMap members hm).sorted o members).2 ⟨trivial, rfl⟩
  rw [toJson]
  refine Fits.decode ?_ (by decide)
  exact Fits.seq (Fits.map mk (fits_option_object (fun _ => ⟨_, rfl⟩) hmap))
    (fits_option_any _ fun j hj => (h.resume j hj).imp_left (·.sorted))

theorem writable_toJson (h : c.Portable) : c.toJson.Writable Doc.nestingLimit := by
  refine ⟨legible_obj ?_, h.shallow⟩
  simp only [everywhere_append]
  exact ⟨everywhere_optional_map fun members hm => (h.resumeMap members hm).legible,
    everywhere_optional.2 fun j hj => (h.resume j hj).1.legible⟩

end ResumeCommand

/-! ## Round trips -/

/-- **Outputs, metadata and commands are read back** from their bytes, in whatever order the blobs
of an output are written. -/
theorem contract_readBack :
    (∀ (out : Output) (blobs : List (String × Bytes)), out.Sized → blobs.Perm out.blobs →
      decodeText Output.decode (Output.toJson { out with blobs }).encode = .ok out) ∧
    (∀ r : NodeReport, r.Sized → decodeText NodeReport.record.decode r.toJson.encode = .ok r) ∧
    (∀ r : StepReport, r.Portable → decodeText StepReport.record.decode r.toJson.encode = .ok r) ∧
    (∀ r : ModelReport, decodeText ModelReport.record.decode r.toJson.encode = .ok r) ∧
    (∀ r : ToolReport, decodeText ToolReport.record.decode r.toJson.encode = .ok r) ∧
    (∀ r : CustomReport, r.Portable →
      decodeText CustomReport.record.decode r.toJson.encode = .ok r) ∧
    ∀ c : ResumeCommand, c.Portable →
      decodeText ResumeCommand.record.decode c.toJson.encode = .ok c := by
  refine ⟨fun out blobs h hperm => ?_, fun r h => ?_, fun r h => ?_, fun r => ?_, fun r => ?_,
    fun r h => ?_, fun c h => ?_⟩
  · have hwritable : (Output.toJson { out with blobs }).Writable 8 :=
      Output.writable_toJson h.response
    exact decodeText_encode (hwritable.mono (by decide)) (Output.decode_toJson h hperm .text)
  · exact decodeText_encode ((NodeReport.writable_toJson h).mono (by decide))
      (NodeReport.decode_toJson h .text)
  · exact decodeText_encode (StepReport.writable_toJson h) (StepReport.decode_toJson h .text)
  · exact decodeText_encode (r.writable_toJson.mono (by decide)) (r.decode_toJson .text)
  · exact decodeText_encode (r.writable_toJson.mono (by decide)) (r.decode_toJson .text)
  · exact decodeText_encode (CustomReport.writable_toJson h) (CustomReport.decode_toJson h .text)
  · exact decodeText_encode (ResumeCommand.writable_toJson h) (ResumeCommand.decode_toJson h .text)

/-- An output with a piece of text and two blobs. -/
def spoken : Output :=
  { id := "o-1", response := some (.chunk "m" "hi"), blobs := [("a", [123, 125]), ("b", [])] }

/-- A node that has completed its second attempt. -/
def secondAttempt : NodeReport := ⟨"n", "llm", .complete, some 2, some (-1), none, some "m"⟩

/-- A step that asks for a value. -/
def asking : StepReport := ⟨3, "n", some (.obj [("ask", .null)])⟩

/-- A node that is half way, with a payload. -/
def halfWay : CustomReport :=
  ⟨.progress, "", "n", "half", ⟨4602678819172646912⟩, some (.arr [.int 1, .str ""]), 0, -1⟩

/-- A command with a map and a value. -/
def resuming : ResumeCommand := ⟨some [("i", .bool true)], some (.int 0)⟩

/-- All of these are read back, the output from either order of its blobs. -/
theorem contract_readBack_halfWay :
    decodeText Output.decode spoken.toJson.encode = .ok spoken ∧
    decodeText Output.decode
      (Output.toJson { spoken with blobs := [("b", []), ("a", [123, 125])] }).encode = .ok spoken ∧
    decodeText NodeReport.record.decode secondAttempt.toJson.encode = .ok secondAttempt ∧
    decodeText StepReport.record.decode asking.toJson.encode = .ok asking ∧
    decodeText CustomReport.record.decode halfWay.toJson.encode = .ok halfWay ∧
    decodeText ResumeCommand.record.decode resuming.toJson.encode = .ok resuming := by
  obtain ⟨hout, hnode, hstep, -, -, hcustom, hcommand⟩ := contract_readBack
  have hspoken : spoken.Sized := by
    refine ⟨?_, by decide⟩
    rintro _ ⟨rfl⟩
    exact ⟨by decide, fun _ => nofun⟩
  have hsecond : secondAttempt.Sized := by
    refine ⟨?_, ?_⟩
    · rintro _ ⟨rfl⟩
      decide
    · rintro _ ⟨rfl⟩
      exact ⟨by decide, by decide⟩
  have hasking : asking.Portable := by
    refine ⟨⟨by decide, by decide⟩, ?_, by decide⟩
    rintro _ ⟨rfl⟩
    exact ⟨portable_of_integral ⟨by decide, trivial, trivial⟩ (by decide), nofun⟩
  have hhalf : halfWay.Portable := by
    refine ⟨⟨⟨false, [0], [5], none⟩, by decide +kernel, by decide +kernel⟩, ?_,
      ⟨by decide, by decide⟩, ⟨by decide, by decide⟩, by decide⟩
    rintro _ ⟨rfl⟩
    exact ⟨portable_of_integral ⟨trivial, trivial, trivial⟩ (by decide), nofun⟩
  have hresuming : resuming.Portable := by
    refine ⟨?_, ?_, by decide⟩
    · rintro _ ⟨rfl⟩
      exact portable_of_integral ⟨by decide, trivial, trivial⟩ (by decide)
    · rintro _ ⟨rfl⟩
      exact ⟨portable_of_integral trivial (by decide), nofun⟩
  exact ⟨hout spoken spoken.blobs hspoken (.refl _), hout spoken _ hspoken (.swap ..),
    hnode _ hsecond, hstep _ hasking, hcustom _ hhalf, hcommand _ hresuming⟩

end Engine

end AgentStream
