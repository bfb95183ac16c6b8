import TomlEditor.Terminal.Files
import TomlEditor.Text.Escaped
import TomlEditor.Toml.Check

/-!
# Files are handled independently

A request is for an action on some files, which are handled one by one, and what
is done with one of them depends on nothing but the content of that file. So what
is printed for some files is what is printed for each of them alone, in order and
as often as it is listed, and the program fails just if one of them is at fault. A
file is at fault if it is missing or not UTF-8, and for a check also if it is not
valid.
-/

namespace TomlEditor.Terminal

open Problem Theme

/-! ## Outcomes -/

namespace Outcome

@[simp] theorem stdout_append (first second : Outcome) :
    (first ++ second).stdout = first.stdout ++ second.stdout := rfl

@[simp] theorem stderr_append (first second : Outcome) :
    (first ++ second).stderr = first.stderr ++ second.stderr := rfl

@[simp] theorem failed_append (first second : Outcome) :
    (first ++ second).failed = (first.failed || second.failed) := rfl

theorem nothing_append (outcome : Outcome) : nothing ++ outcome = outcome := by
  show Outcome.mk ("" ++ outcome.stdout) ("" ++ outcome.stderr) (false || outcome.failed) = outcome
  rw [String.empty_append, String.empty_append, Bool.false_or]

theorem append_nothing (outcome : Outcome) : outcome ++ nothing = outcome := by
  show Outcome.mk (outcome.stdout ++ "") (outcome.stderr ++ "") (outcome.failed || false) = outcome
  rw [String.append_empty, String.append_empty, Bool.or_false]

theorem append_assoc (first second third : Outcome) :
    first ++ second ++ third = first ++ (second ++ third) := by
  show Outcome.mk _ _ _ = Outcome.mk _ _ _
  simp [String.append_assoc, Bool.or_assoc]

theorem code_exit_eq_zero_iff (outcome : Outcome) :
    outcome.exit.code = 0 ↔ outcome.failed = false := by
  cases hfailed : outcome.failed with
  | false => simp [exit, hfailed]
  | true => simp [exit, hfailed]

theorem code_exit_append (first second : Outcome) :
    (first ++ second).exit.code =
      if first.exit.code = 1 ∨ second.exit.code = 1 then 1 else 0 := by
  cases hfirst : first.failed with
  | true => simp [exit, hfirst]
  | false =>
    cases hsecond : second.failed with
    | true => simp [exit, hfirst, hsecond]
    | false => simp [exit, hfirst, hsecond]

end Outcome

section Files

variable (write : Char → List Char) (validate : String → Except Failure Unit)
  (directory : Directory) (action : Action)

/-! ## One file -/

theorem failed_reportCheck (name : String) (outcome : Except Failure Unit) :
    (reportCheck name outcome).failed = false ↔ outcome = .ok () := by
  unfold reportCheck
  split
  · simp [Outcome.reported]
  · split
    · simp [Outcome.reported]
    · simp [Outcome.reported]

theorem failed_handleContent (name content : String) :
    (handleContent write validate action name content).failed = false ↔
      (action = .check → validate content = .ok ()) := by
  cases action with
  | tokens => simp [handleContent, Outcome.printed]
  | check => simp [handleContent, failed_reportCheck]
  | highlight appearance => simp [handleContent, Outcome.printed]

/-- A file is at fault if it cannot be read, or if it is checked and not valid. -/
theorem failed_handleFile (name : String) :
    (handleFile write validate directory action name).failed = false ↔
      ∃ content, directory name = .ok content ∧ (action = .check → validate content = .ok ()) := by
  unfold handleFile
  split
  · next content hread => simp [hread, failed_handleContent]
  · next reason hread => simp [hread, Outcome.reported]

/-! ## Some files -/

theorem handleFiles_append (names more : List String) :
    handleFiles write validate directory action (names ++ more) =
      handleFiles write validate directory action names ++
        handleFiles write validate directory action more := by
  induction names with
  | nil => exact (Outcome.nothing_append _).symm
  | cons name names ih =>
    rw [List.cons_append, handleFiles, handleFiles, ih, Outcome.append_assoc]

theorem failed_handleFiles (names : List String) :
    (handleFiles write validate directory action names).failed = false ↔
      ∀ name ∈ names, (handleFile write validate directory action name).failed = false := by
  induction names with
  | nil => simp [handleFiles, Outcome.nothing]
  | cons name names ih => simp [handleFiles, ih]

theorem handleFiles_singleton (name : String) :
    handleFiles write validate directory action [name] =
      handleFile write validate directory action name :=
  Outcome.append_nothing _

/-- What is printed for some files is what is printed for each of them, in order. -/
theorem printed_handleFiles {printed : Outcome → String} (hnothing : printed .nothing = "")
    (happend : ∀ first second, printed (first ++ second) = printed first ++ printed second)
    (names : List String) :
    printed (handleFiles write validate directory action names) =
      String.join (names.map fun name =>
        printed (handleFile write validate directory action name)) := by
  induction names with
  | nil => exact hnothing
  | cons name names ih => rw [handleFiles, happend, ih, List.map_cons, String.join_cons]

/-- What is done with some files depends on their content alone. -/
theorem handleFiles_congr {other : Directory} {names : List String}
    (h : ∀ name ∈ names, directory name = other name) :
    handleFiles write validate directory action names =
      handleFiles write validate other action names := by
  induction names with
  | nil => rfl
  | cons name names ih =>
    obtain ⟨hname, hnames⟩ := List.forall_mem_cons.1 h
    rw [handleFiles, handleFiles, ih hnames, handleFile, handleFile, hname]

theorem run_files (names : List String) :
    (Request.files action names).run write validate directory =
      (handleFiles write validate directory action names).exit := rfl

end Files

/-! ## Files as bytes -/

/-- The directory of the files with the given bytes. -/
def Directory.ofFiles (files : String → Option ByteArray) : Directory := fun name =>
  match files name with
  | some bytes => decode bytes
  | none => .error .missing

theorem decode_eq_ok_iff {bytes : ByteArray} {content : String} :
    decode bytes = .ok content ↔ bytes = content.toUTF8 := by
  unfold decode String.fromUTF8?
  constructor
  · intro h
    split at h
    · next text htext =>
      obtain rfl := Except.ok.inj h
      split at htext
      · obtain rfl := Option.some.inj htext
        rfl
      · simp at htext
    · simp at h
  · rintro rfl
    have hvalid : content.toUTF8.IsValidUTF8 := content.isValidUTF8
    rw [dif_pos hvalid]
    rfl

/-- A file can be read if it is there and its bytes are a text. -/
theorem ofFiles_eq_ok_iff {files : String → Option ByteArray} {name content : String} :
    Directory.ofFiles files name = .ok content ↔ files name = some content.toUTF8 := by
  unfold Directory.ofFiles
  split
  · next bytes hfile => rw [decode_eq_ok_iff, hfile, Option.some_inj]
  · next hfile => simp [hfile]

/-! ## Requests -/

/-- **Files are handled independently.** A request for some files and then some more prints what
the request for the first prints and then what the one for the others prints, on either channel, and
fails just if one of them does. A request succeeds just if each of its files can be read and, for a
check, is valid. It prints for each file, in order, what is printed for that file alone, and the
content of other files does not change it. -/
theorem files_are_independent (write : Char → List Char)
    (validate : String → Except Failure Unit) (files : String → Option ByteArray)
    (action : Action) :
    let run := fun names => (Request.files action names).run write validate (.ofFiles files)
    (∀ names more, (run (names ++ more)).stdout = (run names).stdout ++ (run more).stdout ∧
        (run (names ++ more)).stderr = (run names).stderr ++ (run more).stderr ∧
        (run (names ++ more)).code =
          if (run names).code = 1 ∨ (run more).code = 1 then 1 else 0) ∧
      (∀ names, (run names).code = 0 ↔ ∀ name ∈ names, ∃ content,
        files name = some content.toUTF8 ∧ (action = .check → validate content = .ok ())) ∧
      (∀ names, (run names).stdout = String.join (names.map fun name => (run [name]).stdout) ∧
        (run names).stderr = String.join (names.map fun name => (run [name]).stderr)) ∧
      (∀ names (other : String → Option ByteArray), (∀ name ∈ names, files name = other name) →
        (Request.files action names).run write validate (.ofFiles other) = run names) := by
  simp only [run_files]
  refine ⟨?_, ?_, ?_, ?_⟩
  · intro names more
    rw [handleFiles_append]
    exact ⟨rfl, rfl, Outcome.code_exit_append _ _⟩
  · intro names
    rw [Outcome.code_exit_eq_zero_iff, failed_handleFiles]
    simp only [failed_handleFile, ofFiles_eq_ok_iff]
  · intro names
    simp only [handleFiles_singleton]
    exact ⟨printed_handleFiles write validate _ action rfl Outcome.stdout_append names,
      printed_handleFiles write validate _ action rfl Outcome.stderr_append names⟩
  · intro names other hsame
    have hread : ∀ name ∈ names, Directory.ofFiles other name = Directory.ofFiles files name := by
      intro name hname
      rw [Directory.ofFiles, Directory.ofFiles, hsame name hname]
    rw [handleFiles_congr write validate _ action hread]

/-- A file that is valid, one that is not, and one that is no text. -/
def mixedFiles : String → Option ByteArray
  | "good" => some "a = 1\n".toUTF8
  | "bad" => some "= 1".toUTF8
  | "raw" => some ⟨#[0xff]⟩
  | _ => none

/-- Files at fault neither stop a check nor hide each other, and a valid file is reported as often as
it is listed. -/
theorem mixed_files_are_checked :
    let run := fun names =>
      (Request.files .check names).run Text.escapedChar Toml.validate (.ofFiles mixedFiles)
    run ["bad", "lost", "raw", "good", "good"] =
        ⟨"", "bad:1:1: error: invalid key\nlost: No such file or directory (os error 2)\n" ++
          "raw: stream did not contain valid UTF-8\ngood: valid\ngood: valid\n", 1⟩ ∧
      (run ["bad", "lost", "raw", "good", "good"]).stderr =
        (run ["bad", "lost", "raw"]).stderr ++ (run ["good", "good"]).stderr ∧
      (run ["good", "good"]).code = 0 ∧ (run ["bad", "lost", "raw"]).code ≠ 0 := by
  obtain ⟨hjoined, hcode, -⟩ :=
    files_are_independent Text.escapedChar Toml.validate mixedFiles .check
  refine ⟨by decide +kernel, (hjoined ["bad", "lost", "raw"] ["good", "good"]).2.1,
    by decide +kernel, ?_⟩
  -- The missing file alone is enough for the check to fail.
  intro hsucceeded
  obtain ⟨content, hread, -⟩ := (hcode _).1 hsucceeded "lost" (by decide)
  simp [mixedFiles] at hread

end TomlEditor.Terminal
