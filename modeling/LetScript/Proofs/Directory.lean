/-
Files by plain names.

A plain name is the path of a file in the directory itself (`ofText_plain`). Such a file is found if it is there, and it can be
put unless there is a folder of that name or the name is too long (`writeText_plain`). What was written is read back
(`readText_put`), and other plain names lead where they did before (`find_put`).
-/
import LetScript.Directory
import LetScript.Proofs.Encoding

namespace LetScript

/-! ## Plain names -/

/-- a name that is no path through folders and no option: not empty, no point, no slash in it, and no hyphen first -/
structure IsPlainName (name : String) : Prop where
  nonempty : name ≠ ""
  notPoint : name ≠ "."
  noSlash : '/' ∉ name.toList
  noHyphen : name.toList.head? ≠ some '-'

namespace Path

/-- the path of a file in the directory itself -/
def plain (name : String) : Path := ⟨"", [name]⟩

theorem text_plain {name : String} (h : name ≠ "") : (plain name).text = name := by
  simp [text, plain, String.intercalate_singleton, h]

theorem split_plain {separator : Char} {chars : List Char} (h : separator ∉ chars) : Text.split separator chars = [chars] := by
  induction chars with
  | nil => rfl
  | cons c rest ih =>
    simp only [List.mem_cons, not_or] at h
    rw [Text.split, ih h.2]
    exact if_neg (Ne.symm h.1)

theorem ofText_plain {name : String} (h : IsPlainName name) : ofText name = plain name := by
  have hroot : rootOf name.toList = "" := by
    have hslash := h.noSlash
    unfold rootOf
    split
    all_goals simp_all
  simp [ofText, plain, hroot, split_plain h.noSlash, h.nonempty, h.notPoint]

end Path

/-- a plain name that goes on is a plain name -/
theorem IsPlainName.append {name ending : String} (h : IsPlainName name) (hending : ending ≠ "") (hslash : '/' ∉ ending.toList) :
    IsPlainName (name ++ ending) := by
  have hname : name.toList ≠ [] := by simpa using h.nonempty
  refine ⟨by simp [h.nonempty], ?_, by simp [h.noSlash, hslash], ?_⟩
  · intro hpoint
    have hlength := congrArg (fun text => text.toList.length) hpoint
    have hpos := List.length_pos_iff.2 hname
    have hpos' : 0 < ending.toList.length := List.length_pos_iff.2 (by simpa using hending)
    simp only [String.toList_append, List.length_append, show ".".toList = ['.'] from rfl, List.length_singleton] at hlength
    omega
  · rw [String.toList_append, List.head?_append_of_ne_nil _ hname]
    exact h.noHyphen

namespace Directory

/-! ## Putting files -/

theorem get?_put (name : String) (contents : ByteArray) (directory : Directory) (other : String) :
    (directory.put name contents).get? other = if other = name then some contents else directory.get? other := by
  induction directory with
  | nil => simp only [put, get?, eq_comm]
  | cons file rest ih =>
    obtain ⟨key, old⟩ := file
    by_cases hkey : key = name
    · subst hkey
      by_cases hother : key = other
      · simp [put, get?, hother]
      · simp [put, get?, hother, Ne.symm hother]
    · by_cases hother : key = other
      · subst hother
        simp [put, get?, hkey]
      · simp [put, get?, hkey, hother, ih]

/-- a file in the directory itself is in no folder -/
theorem isFolder_put {name : String} (h : '/' ∉ name.toList) (contents : ByteArray) (directory : Directory) (here : List String) :
    (directory.put name contents).isFolder here = directory.isFolder here := by
  have houtside : (nameOf here ++ "/").toList.isPrefixOf name.toList = false := by
    rw [Bool.eq_false_iff]
    intro hprefix
    have hinside := (List.isPrefixOf_iff_prefix.1 hprefix).subset (a := '/') (by simp)
    exact h hinside
  unfold isFolder
  congr 1
  induction directory with
  | nil => simpa [put] using houtside
  | cons file rest ih =>
    obtain ⟨key, old⟩ := file
    by_cases hkey : key = name
    · simp [put, hkey]
    · simp only [put, hkey, if_false, List.any_cons, ih]

/-! ## Finding files -/

/-- what a plain name leads to -/
theorem find_plain {name : String} (h : name ≠ "") (directory : Directory) :
    directory.find (.plain name) =
      if !(Path.plain name).isUsable then .nowhere
      else if Path.lengthLimit ≤ name.utf8ByteSize then .tooLong
      else
        match directory.get? name with
        | some _ => .file name
        | none => directory.walk [] [name] := by
  rw [find, Path.text_plain h]
  rfl

/-- **Another plain name leads where it did before a file was put.** -/
theorem find_put {name other : String} (h : '/' ∉ name.toList) (hother : other ≠ "") (hne : other ≠ name) (contents : ByteArray)
    (directory : Directory) : (directory.put name contents).find (.plain other) = directory.find (.plain other) := by
  have hhere : nameOf [other] = other := by simp [nameOf, String.intercalate_singleton]
  rw [find_plain hother, find_plain hother, get?_put, if_neg hne]
  simp only [walk, placeAt, isFolder_put h, get?_put, hhere, hne, if_false]

/-- a file that is there is found under its plain name -/
theorem find_plain_of_get {name : String} (h : name ≠ "") (husable : (Path.plain name).isUsable = true)
    (hshort : name.utf8ByteSize < Path.lengthLimit) {directory : Directory} {contents : ByteArray}
    (hget : directory.get? name = some contents) : directory.find (.plain name) = .file name := by
  simp [find_plain h, husable, hshort, hget]

/-! ## Reading and writing -/

theorem unifyBreaks_of_none {chars : List Char} (h : '\r' ∉ chars) : unifyBreaks chars = chars := by
  induction chars with
  | nil => rfl
  | cons c rest ih =>
    simp only [List.mem_cons, not_or] at h
    rw [unifyBreaks, ih h.2]
    · exact fun _ hc => absurd hc.symm h.1
    · exact Ne.symm h.1

/-- a text without carriage returns survives in a file -/
theorem decode_toUTF8 {text : String} (h : '\r' ∉ text.toList) : decode text.toUTF8 = .ok text := by
  have hdecoded : String.fromUTF8? text.toUTF8 = some text := dif_pos text.isValidUTF8
  rw [decode, hdecoded]
  simp [unifyBreaks_of_none h]

/-- a path that is read can be looked up -/
theorem isUsable_of_readText {path : Path} {directory : Directory} {text : String} (h : directory.readText path = .ok text) :
    path.isUsable = true := by
  by_contra hunusable
  have hnowhere : directory.find path = .nowhere := if_pos (by simpa using hunusable)
  rw [readText, hnowhere] at h
  cases h

/-- **A text is written under a plain name** that is not too long and not that of a folder. -/
theorem writeText_plain {name : String} (hne : name ≠ "") (hup : name ≠ "..") (husable : (Path.plain name).isUsable = true)
    (hshort : name.utf8ByteSize ≤ Path.partLimit) {directory : Directory} (hfolder : directory.isFolder [name] = false)
    (text : String) : directory.writeText (.plain name) text = .ok (directory.put name text.toUTF8) := by
  have hlimit : name.utf8ByteSize < Path.lengthLimit := hshort.trans_lt (by decide)
  have hhere : nameOf [name] = name := by simp [nameOf, String.intercalate_singleton]
  have hpart : Path.isTooLong name = false := by simpa [Path.isTooLong] using hshort
  have hroot : directory.isFolder [] = true := rfl
  rw [writeText]
  cases hget : directory.get? name with
  | some contents => rw [find_plain_of_get hne husable hlimit hget]
  | none =>
    have hvacant : directory.find (.plain name) = .vacant name := by
      simp [find_plain hne, husable, Nat.not_le.2 hlimit, hget, walk, hroot, hup, hpart, placeAt, hfolder, hhere]
    rw [hvacant]

/-- a new file with a name that is too long is not written -/
theorem writeText_tooLong {name : String} (hne : name ≠ "") (hup : name ≠ "..") (husable : (Path.plain name).isUsable = true)
    (hlong : Path.partLimit < name.utf8ByteSize) {directory : Directory} (hget : directory.get? name = none) (text : String) :
    directory.writeText (.plain name) text = .error .nameTooLong := by
  have hpart : Path.isTooLong name = true := by simpa [Path.isTooLong] using hlong
  have hroot : directory.isFolder [] = true := rfl
  have hfind : directory.find (.plain name) = .tooLong := by
    simp [find_plain hne, husable, hget, walk, hroot, hup, hpart]
  rw [writeText, hfind]

/-- nothing is written under the name of a folder -/
theorem writeText_folder {name : String} (hne : name ≠ "") (hup : name ≠ "..") (husable : (Path.plain name).isUsable = true)
    (hshort : name.utf8ByteSize ≤ Path.partLimit) {directory : Directory} (hget : directory.get? name = none)
    (hfolder : directory.isFolder [name] = true) (text : String) :
    directory.writeText (.plain name) text = .error .isFolder := by
  have hlimit : name.utf8ByteSize < Path.lengthLimit := hshort.trans_lt (by decide)
  have hpart : Path.isTooLong name = false := by simpa [Path.isTooLong] using hshort
  have hroot : directory.isFolder [] = true := rfl
  have hfind : directory.find (.plain name) = .folder := by
    simp [find_plain hne, husable, Nat.not_le.2 hlimit, hget, walk, hroot, hup, hpart, placeAt, hfolder]
  rw [writeText, hfind]

/-- a file that holds a text without carriage returns is read under its plain name -/
theorem readText_plain {name : String} (hne : name ≠ "") (husable : (Path.plain name).isUsable = true)
    (hshort : name.utf8ByteSize < Path.lengthLimit) {directory : Directory} {text : String}
    (hget : directory.get? name = some text.toUTF8) (htext : '\r' ∉ text.toList) :
    directory.readText (.plain name) = .ok text := by
  rw [readText, find_plain_of_get hne husable hshort hget]
  simp only [hget]
  exact decode_toUTF8 htext

/-- **What was written under a plain name is read back.** -/
theorem readText_put {name : String} (hne : name ≠ "") (husable : (Path.plain name).isUsable = true)
    (hshort : name.utf8ByteSize < Path.lengthLimit) {text : String} (htext : '\r' ∉ text.toList) (directory : Directory) :
    (directory.put name text.toUTF8).readText (.plain name) = .ok text :=
  readText_plain hne husable hshort (by rw [get?_put, if_pos rfl]) htext

/-- **Writing elsewhere goes as before a file was put**, and leaves the same files but that one. -/
theorem writeText_put {name other : String} (h : '/' ∉ name.toList) (hother : other ≠ "") (hne : other ≠ name)
    (contents : ByteArray) (text : String) (directory : Directory) :
    (∃ error, directory.writeText (.plain other) text = .error error ∧
        (directory.put name contents).writeText (.plain other) text = .error error) ∨
      ∃ after after', directory.writeText (.plain other) text = .ok after ∧
        (directory.put name contents).writeText (.plain other) text = .ok after' ∧
        ∀ file, file ≠ name → after'.get? file = after.get? file := by
  simp only [writeText, find_put h hother hne]
  cases directory.find (.plain other) with
  | file found =>
    refine Or.inr ⟨_, _, rfl, rfl, fun file hfile => ?_⟩
    simp only [get?_put, hfile, if_false]
  | vacant found =>
    refine Or.inr ⟨_, _, rfl, rfl, fun file hfile => ?_⟩
    simp only [get?_put, hfile, if_false]
  | folder => exact Or.inl ⟨_, rfl, rfl⟩
  | nowhere => exact Or.inl ⟨_, rfl, rfl⟩
  | tooLong => exact Or.inl ⟨_, rfl, rfl⟩

end Directory

end LetScript
