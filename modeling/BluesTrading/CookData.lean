import BluesTrading.TickArchive

namespace BluesTrading.CookData

open BluesTrading.SourceText
open BluesTrading.TickArchive

universe u

/-! ### Directories -/

/-- What is at a path.  The entries of a directory have the order of its iterator. -/
inductive FileNode
  | regularFile
  | directory (entries : List (Str × FileNode))
  | other

def joinPath (dirName name : Str) : Str :=
  if dirName.getLast? = some '/' then dirName ++ name else dirName ++ '/' :: name

section Traverse

variable {σ : Type u} (process : σ → Str → Option σ)

mutual

def traverseNode (dirName : Str) : FileNode → σ → Option σ
  | .directory entries, s => traverseEntries dirName entries s
  | .regularFile, s => process s dirName
  | .other, s => some s

def traverseEntries (dirName : Str) : List (Str × FileNode) → σ → Option σ
  | [], s => some s
  | (name, .regularFile) :: entries, s =>
      (process s (joinPath dirName name)).bind (traverseEntries dirName entries)
  | (name, .directory inner) :: entries, s =>
      (traverseNode (joinPath dirName name) (.directory inner) s).bind
        (traverseEntries dirName entries)
  | (_, .other) :: entries, s => traverseEntries dirName entries s

end

/-- The directory has to be there; there is only a message if it is not. -/
def traverseDir (dirName : Str) (node : Option FileNode) (s : σ) : Option σ :=
  match node with
  | none => some s
  | some node => traverseNode process dirName node s

mutual

def filesBelow (dirName : Str) : FileNode → List Str
  | .directory entries => filesOfEntries dirName entries
  | .regularFile => [dirName]
  | .other => []

def filesOfEntries (dirName : Str) : List (Str × FileNode) → List Str
  | [] => []
  | (name, node) :: entries =>
      filesBelow (joinPath dirName name) node ++ filesOfEntries dirName entries

end

mutual

theorem traverseNode_eq (dirName : Str) : (node : FileNode) → (s : σ) →
    traverseNode process dirName node s = (filesBelow dirName node).foldlM process s
  | .regularFile, s => by simp [traverseNode, filesBelow]
  | .directory entries, s => by
      rw [traverseNode, filesBelow]
      exact traverseEntries_eq dirName entries s
  | .other, s => by simp [traverseNode, filesBelow]

theorem traverseEntries_eq (dirName : Str) : (entries : List (Str × FileNode)) → (s : σ) →
    traverseEntries process dirName entries s = (filesOfEntries dirName entries).foldlM process s
  | [], s => by simp [traverseEntries, filesOfEntries]
  | (name, .regularFile) :: entries, s => by
      simp only [traverseEntries, filesOfEntries, filesBelow, List.foldlM_append]
      simp [funext (traverseEntries_eq dirName entries)]
  | (name, .directory inner) :: entries, s => by
      rw [traverseEntries, filesOfEntries, List.foldlM_append,
        traverseNode_eq (joinPath dirName name) (.directory inner) s,
        funext (traverseEntries_eq dirName entries)]
      rfl
  | (name, .other) :: entries, s => by
      simp [traverseEntries, filesOfEntries, filesBelow, traverseEntries_eq dirName entries s]

end

theorem traverseDir_eq (dirName : Str) (node : Option FileNode) (s : σ) :
    traverseDir process dirName node s =
      (node.elim [] (filesBelow dirName)).foldlM process s := by
  cases node with
  | none => rfl
  | some node => exact traverseNode_eq process dirName node s

end Traverse

/-! ### Names -/

/-- `s.substr(s.size() - k, n)`.  In a text of less than `k` characters the position wraps round
and is past the end, which raises an exception. -/
def substrFromEnd (s : Str) (k n : ℕ) : Option Str :=
  if s.length < k then none else some ((s.drop (s.length - k)).take n)

def csv : Str := ['.', 'c', 's', 'v']

def lastName (path : Str) : Str := (path.reverse.takeWhile (· != '/')).reverse

/-- The last dot of the name and what follows it; the two names of directories have none. -/
def extension (path : Str) : Str :=
  let name := lastName path
  if name = ['.'] ∨ name = ['.', '.'] ∨ '.' ∉ name then []
  else '.' :: (name.reverse.takeWhile (· != '.')).reverse

def replaceExtension (path newExtension : Str) : Str :=
  path.take (path.length - (extension path).length) ++
    if newExtension = [] ∨ newExtension.head? = some '.' then newExtension
    else '.' :: newExtension

example : replaceExtension "ticks.d/600000.csv".toList ['.', 'b', 'i', 'n'] =
    "ticks.d/600000.bin".toList := by decide

/-! ### The command -/

/-- What is done with a file.  A conversion may fail as well, or go on with other files. -/
inductive Cooked
  | thrown
  | skipped
  | converted (files : Option Files)

def Cooked.next (files : Files) : Cooked → Option Files
  | .thrown => none
  | .skipped => some files
  | .converted files => files

section Command

-- The reader of raw files, and the memory that a store is constructed in.
variable (loadFromRawFile : Str → MarketDataStore → Option MarketDataStore)
  (memory : MarketDataStore)

def cookDataOne (files : Files) (filename : Str) : Cooked :=
  match substrFromEnd filename 3 4 with
  | none => .thrown
  | some suffix =>
      if csv = suffix then
        .converted ((construct loadFromRawFile files filename memory).bind fun (inst, files) =>
          saveToBinFile files (replaceExtension filename ['.', 'b', 'i', 'n']) inst)
      else .skipped

def cookData (files : Files) (dirName : Str) (node : Option FileNode) : Option Files :=
  traverseDir (fun files filename =>
    (cookDataOne loadFromRawFile memory files filename).next files) dirName node files

def Converts (files : Files) (filename : Str) : Prop :=
  ∃ files', cookDataOne loadFromRawFile memory files filename = .converted files'

/-- What the command is for: it converts the csv files and no others, does not fail on a short
name, and what it converts is read as text. -/
structure CooksRight (files : Files) (filename : Str) : Prop where
  converts : Converts loadFromRawFile memory files filename ↔ csv <:+ filename
  returns : filename.length < csv.length →
    cookDataOne loadFromRawFile memory files filename ≠ .thrown
  raw : Converts loadFromRawFile memory files filename → ∀ store,
    loadDataFromFile loadFromRawFile files filename store = loadFromRawFile filename store

variable {loadFromRawFile memory} {files : Files} {filename : Str}

theorem cookDataOne_eq (files : Files) (filename : Str) :
    cookDataOne loadFromRawFile memory files filename =
      if filename.length < 3 then .thrown else .skipped := by
  unfold cookDataOne substrFromEnd
  split_ifs with hshort
  · rfl
  · have hne : csv ≠ (filename.drop (filename.length - 3)).take 4 := by
      intro h
      have hlength := congrArg List.length h
      rw [List.length_take, List.length_drop] at hlength
      have hcsv : csv.length = 4 := rfl
      omega
    exact if_neg hne

theorem not_converts : ¬ Converts loadFromRawFile memory files filename := by
  rintro ⟨files', h⟩
  rw [cookDataOne_eq] at h
  split_ifs at h

theorem loadDataFromFile_of_csv (h : csv <:+ filename) (store : MarketDataStore) :
    loadDataFromFile loadFromRawFile files filename store = loadFromRawFile filename store := by
  obtain ⟨stem, rfl⟩ := h
  have hend : nameEnd (stem ++ csv) = some ['c', 's', 'v'] := by
    have hlength : (stem ++ csv).length - 3 = (stem ++ ['.']).length := by
      simp [csv]
    have hsplit : stem ++ csv = (stem ++ ['.']) ++ ['c', 's', 'v'] := by
      simp [csv]
    rw [nameEnd, if_neg (by simp [csv]), hlength, hsplit, List.drop_left]
  rw [loadDataFromFile, hend]
  rfl

/-- The command does what it is for just on the names of other files, if they have three
characters. -/
theorem cooksRight_iff (loadFromRawFile : Str → MarketDataStore → Option MarketDataStore)
    (memory : MarketDataStore) (files : Files) (filename : Str) :
    CooksRight loadFromRawFile memory files filename ↔
      3 ≤ filename.length ∧ ¬ csv <:+ filename := by
  constructor
  · intro h
    refine ⟨not_lt.mp fun hshort => ?_, fun hcsv => not_converts (h.converts.mpr hcsv)⟩
    refine h.returns (hshort.trans (by decide)) ?_
    rw [cookDataOne_eq, if_pos hshort]
  · rintro ⟨hlength, hcsv⟩
    refine ⟨iff_of_false not_converts hcsv, fun _ => ?_, fun h => absurd h not_converts⟩
    rw [cookDataOne_eq, if_neg (not_lt.mpr hlength)]
    exact Cooked.noConfusion

/-- A csv file is not converted, and a name of two characters is not read to its end. -/
theorem not_cooksRight_csv :
    ¬ CooksRight (fun _ store => some store) emptyStore (fun _ => none) "600000.csv".toList ∧
      ¬ CooksRight (fun _ store => some store) emptyStore (fun _ => none) ['a', 'b'] :=
  ⟨fun h => not_converts (h.converts.mpr (by decide)), fun h => h.returns (by decide) rfl⟩

/-- The whole command writes nothing; it fails if there is a file with a short path. -/
theorem cookData_eq (files : Files) (dirName : Str) (node : Option FileNode) :
    cookData loadFromRawFile memory files dirName node =
      if ∀ path ∈ node.elim [] (filesBelow dirName), 3 ≤ path.length then some files else none := by
  rw [cookData, traverseDir_eq]
  induction node.elim [] (filesBelow dirName) with
  | nil => rfl
  | cons path paths ih =>
      rw [List.foldlM_cons, cookDataOne_eq]
      by_cases hshort : path.length < 3
      · simp [hshort, Cooked.next]
      · rw [if_neg hshort, Cooked.next, Option.bind_eq_bind, Option.bind_some, ih]
        simp only [List.forall_mem_cons, not_lt.mp hshort, true_and]

end Command

end BluesTrading.CookData
