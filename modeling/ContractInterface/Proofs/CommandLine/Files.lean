import ContractInterface.CommandLine.Run

/-!
# What becomes of files

A file that is saved can be opened under its name, and all others are as they were (`Saved`).  A
file is refused for U+0000 only if its name holds it.  A run fails to read for its source file, and
fails to deliver for its output file or for lone surrogates in the result.

    fs.save name content = .ok fs' → Saved fs name content fs'                    (saved_of_save)
    fs.open? name = .error .nul → '\x00' ∈ name.toList                               (nul_of_open)
    readInput w name = .error e → e = .file f name ∨ e = .notText name offset     (readInput_error)
-/

namespace ContractInterface.CommandLine

/-- The path of the file that is written where a name leads. -/
def Target.path? : Target → Option (List String)
  | file path _ | vacant path => some path
  | directory | noDirectory _ => none

namespace FileSystem

/-! ## What is saved -/

section

variable {fs : FileSystem} {path : List String} {content : List UInt8}

theorem read?_write_self (fs : FileSystem) (path : List String) (content : List UInt8) :
    (fs.write path content).read? path = some content := by
  have hnone : (fs.files.filter fun f => f.1 ≠ path).lookup path = none := by
    rw [List.lookup_eq_none_iff]
    intro f hf
    have hne := of_decide_eq_true (List.mem_filter.1 hf).2
    exact bne_iff_ne.2 fun h => hne h.symm
  rw [read?, write, List.lookup_append, hnone, Option.none_or, List.lookup_cons_self]

theorem read?_write_of_ne {other : List String} (h : other ≠ path) :
    (fs.write path content).read? other = fs.read? other := by
  have hfilter (files : List (List String × List UInt8)) :
      (files.filter fun f => f.1 ≠ path).lookup other = files.lookup other := by
    induction files with
    | nil => rfl
    | cons f files ih =>
      obtain ⟨p, old⟩ := f
      by_cases hp : p = path
      · have hmiss : (other == p) = false := beq_eq_false_iff_ne.2 fun heq => h (heq.trans hp)
        rw [List.filter_cons_of_neg (by simpa using hp), ih]
        simp only [List.lookup_cons, hmiss]
      · rw [List.filter_cons_of_pos (by simpa using hp)]
        simp only [List.lookup_cons, ih]
  have hmiss : (other == path) = false := beq_eq_false_iff_ne.2 h
  rw [read?, write, List.lookup_append, hfilter]
  simp only [List.lookup_cons, List.lookup_nil, hmiss, Option.or_none, read?]

/-- Writing a file leaves directories directories. -/
theorem isDirectory_write {other : List String} (h : fs.isDirectory other = true) :
    (fs.write path content).isDirectory other = true := by
  unfold isDirectory at h ⊢
  simp only [Bool.or_eq_true] at h ⊢
  rcases h with hlisted | hbelow
  · exact .inl hlisted
  · right
    obtain ⟨f, hf, hlt⟩ := List.any_eq_true.1 hbelow
    apply List.any_eq_true.2
    by_cases hp : f.1 = path
    · exact ⟨(path, content), List.mem_concat_self, hp ▸ hlt⟩
    · exact ⟨f, List.mem_append_left _ (List.mem_filter.2 ⟨hf, decide_eq_true hp⟩), hlt⟩

/-- The file that is written is no directory if there was none in its place. -/
theorem isDirectory_write_self (h : fs.isDirectory path = false) :
    (fs.write path content).isDirectory path = false := by
  unfold isDirectory at h ⊢
  simp only [Bool.or_eq_false_iff] at h ⊢
  refine ⟨h.1, ?_⟩
  rw [List.any_eq_false] at h ⊢
  intro f hf
  rcases List.mem_append.1 hf with hf | hf
  · exact h.2 f (List.mem_filter.1 hf).1
  · obtain rfl := List.mem_singleton.1 hf
    simp

/-- A walk to a file that is written leads to what has been written. -/
theorem walk_write {here parts : List String} {target : Target}
    (h : fs.walk here parts = .ok target) (hpath : target.path? = some path) :
    (fs.write path content).walk here parts = .ok (.file path content) := by
  have hlast {here : List String} {part : String} (hlong : ¬maxNameBytes < part.utf8ByteSize)
      (hdir : ¬fs.isDirectory (enter here part) = true)
      (hpath : some (enter here part) = some path) :
      (fs.write path content).walk here [part] = .ok (.file path content) := by
    obtain rfl := Option.some.inj hpath
    have hfile : (fs.write (enter here part) content).isDirectory (enter here part) = false :=
      isDirectory_write_self (Bool.eq_false_iff.2 hdir)
    rw [walk, if_neg hlong]
    simp only [hfile, read?_write_self]
    rfl
  fun_induction walk fs here parts with
  | case1 here =>
    cases h
    cases hpath
  | case3 here part parts hlong next hdir ih =>
    rw [walk, if_neg hlong]
    simp only
    rw [if_pos (isDirectory_write hdir)]
    exact ih h
  | case4 here part hlong next hdir old hread =>
    cases h
    exact hlast hlong hdir hpath
  | case5 here part hlong next hdir hread =>
    cases h
    exact hlast hlong hdir hpath
  | case6 here part hlong next hdir rest _ hall fault =>
    rw [if_pos hall] at h
    cases h
    cases hpath
  | case7 here part hlong next hdir rest _ hall fault =>
    rw [if_neg hall] at h
    cases h
  | case2 => cases h

/-- Where a name leads is found by a walk. -/
theorem find_eq_walk {name : String} {target : Target} (h : fs.find name = .ok target)
    (fs' : FileSystem) : fs'.find name = fs'.walk (route name).1 (route name).2 := by
  unfold find at h ⊢
  by_cases hnul : name.toList.contains '\x00' = true
  · rw [if_pos hnul] at h
    cases h
  by_cases hlong : maxPathBytes < name.utf8ByteSize
  · rw [if_neg hnul, if_pos hlong] at h
    cases h
  by_cases hempty : name.isEmpty = true
  · rw [if_neg hnul, if_neg hlong, if_pos hempty] at h
    cases h
  rw [if_neg hnul, if_neg hlong, if_neg hempty]

/-- What becomes of a file system in which the file of a name is given its content. -/
structure Saved (fs : FileSystem) (name : String) (content : List UInt8) (fs' : FileSystem) :
    Prop where
  opens : fs'.open? name = .ok content
  /-- the name leads to one path; all other files are as they were -/
  others : ∃ path, fs'.find name = .ok (.file path content) ∧
    ∀ other, other ≠ path → fs'.read? other = fs.read? other
  directories : fs'.directories = fs.directories

theorem saved_of_save {name : String} {fs' : FileSystem} (h : fs.save name content = .ok fs') :
    Saved fs name content fs' := by
  obtain ⟨target, path, hfind, hpath, rfl⟩ : ∃ target path, fs.find name = .ok target ∧
      target.path? = some path ∧ fs' = fs.write path content := by
    unfold save at h
    split at h <;> cases h
    · next path old hfind => exact ⟨_, path, hfind, rfl, rfl⟩
    · next path hfind => exact ⟨_, path, hfind, rfl, rfl⟩
  have hfound : (fs.write path content).find name = .ok (.file path content) := by
    rw [find_eq_walk hfind]
    exact walk_write (find_eq_walk hfind fs ▸ hfind) hpath
  refine ⟨?_, ⟨path, hfound, fun other hother => read?_write_of_ne hother⟩, rfl⟩
  rw [open?, hfound]

end

/-! ## What is refused -/

/-- Only a name as a whole can hold U+0000; what is found on the way has other faults. -/
theorem walk_ne_nul (fs : FileSystem) (here parts : List String) :
    fs.walk here parts ≠ .error .nul ∧ fs.walk here parts ≠ .ok (.noDirectory .nul) := by
  fun_induction walk fs here parts with
  | case3 _ _ _ _ _ _ ih => exact ih
  | case6 _ _ _ _ _ _ _ hall fault =>
    rw [if_pos hall]
    unfold fault
    split <;> simp
  | case7 _ _ _ _ _ _ _ hall fault =>
    rw [if_neg hall]
    unfold fault
    split <;> simp
  | _ => simp

theorem nul_of_find {fs : FileSystem} {name : String}
    (h : fs.find name = .error .nul ∨ fs.find name = .ok (.noDirectory .nul)) :
    '\x00' ∈ name.toList := by
  unfold find at h
  split at h
  · next hnul => exact List.contains_iff_mem.1 hnul
  split at h
  · simp at h
  split at h
  · simp at h
  · obtain ⟨herror, hdirectory⟩ := walk_ne_nul fs (route name).1 (route name).2
    exact (h.elim herror hdirectory).elim

theorem nul_of_open {fs : FileSystem} {name : String} (h : fs.open? name = .error .nul) :
    '\x00' ∈ name.toList := by
  unfold open? at h
  split at h
  · next f hf =>
    cases h
    exact nul_of_find (.inl hf)
  · cases h
  · cases h
  · cases h
  · next fault hf =>
    cases h
    exact nul_of_find (.inr hf)

theorem nul_of_save {fs : FileSystem} {name : String} {content : List UInt8}
    (h : fs.save name content = .error .nul) : '\x00' ∈ name.toList := by
  unfold save at h
  split at h
  · next f hf =>
    cases h
    exact nul_of_find (.inl hf)
  all_goals cases h

end FileSystem

/-- A source is not read because of its file, or because it is no text. -/
theorem readInput_error {w : World} {name : String} {e : CommandError}
    (h : readInput w name = .error e) :
    (∃ f, e = .file f name ∧ (f = .nul → '\x00' ∈ name.toList)) ∨
      ∃ offset, e = .notText name offset := by
  unfold readInput at h
  split at h
  · next f hf =>
    cases h
    refine .inl ⟨f, rfl, ?_⟩
    rintro rfl
    split at hf
    · cases hf
    · exact FileSystem.nul_of_open hf
  · next bytes _ =>
    split at h
    · next offset _ =>
      cases h
      exact .inr ⟨offset, rfl⟩
    · cases h

/-- A result is not delivered because of the output file, or because of lone surrogates in it. -/
theorem deliver_error {w : World} {lone : Text.StandIns} {text : String} {output : Option String}
    {e : CommandError} (h : deliver w lone text output = .error e) :
    (∃ f name, e = .file f name ∧ output = some name ∧ (f = .nul → '\x00' ∈ name.toList)) ∨
      ∃ run left, e = .surrogates run left ∧ lone.loneRun? (terminated text).toList = some run := by
  have hname {name : String} (hfilter : (output.filter fun name => !name.isEmpty) = some name) :
      output = some name := (Option.filter_eq_some_iff.1 hfilter).1
  simp only [deliver] at h
  split at h
  · cases h
  · next run _ hrun =>
    cases h
    exact .inr ⟨run, w.files, rfl, hrun⟩
  · next name hfilter _ =>
    split at h
    · next f hf =>
      cases h
      exact .inl ⟨f, name, rfl, hname hfilter, fun hnul => FileSystem.nul_of_save (hnul ▸ hf)⟩
    · cases h
  · next name run hfilter hrun =>
    split at h
    · next f hf =>
      cases h
      exact .inl ⟨f, name, rfl, hname hfilter, fun hnul => FileSystem.nul_of_save (hnul ▸ hf)⟩
    · next files _ =>
      cases h
      exact .inr ⟨run, files, rfl, hrun⟩

end ContractInterface.CommandLine
