import Semihosting.Files.Tree

/-!
# Trees are lawful

Main result: the accesses to a tree of files obey the laws, whatever path they are given
(`lawfulAccess`).
-/
namespace Semihosting.Files.Tree

theorem content_put_self (tree : Tree) (place : Place) (bytes : Bytes) :
    (tree.put place bytes).content place = some bytes := by
  simp [content, put]

/-- A file that is written leaves the content of every other as it was. -/
theorem content_put_of_ne {tree : Tree} {place other : Place} (bytes : Bytes)
    (ne : other ≠ place) : (tree.put place bytes).content other = tree.content other := by
  have kept (files : List (Place × Bytes)) :
      (files.filter fun file => file.1 ≠ place).lookup other = files.lookup other := by
    induction files with
    | nil => rfl
    | cons file rest ih =>
      obtain ⟨key, value⟩ := file
      by_cases here : key = place
      · have passed : (other == key) = false := by simpa [here] using ne
        rw [List.filter_cons_of_neg (by simp [here]), ih, List.lookup_cons, passed]
      · rw [List.filter_cons_of_pos (by simp [here]), List.lookup_cons, List.lookup_cons, ih]
  have passed : (other == place) = false := by simpa using ne
  rw [content, put, List.lookup_cons, passed]
  exact kept tree.files

/-- Where a path leads depends on the directories only. -/
theorem follow_put (tree : Tree) (place : Place) (bytes : Bytes) (start : Place)
    (names : List String) : (tree.put place bytes).follow start names = tree.follow start names := by
  induction names generalizing start with
  | nil => rfl
  | cons name rest ih =>
    have same : (tree.put place bytes).isDirectory start = tree.isDirectory start := rfl
    simp only [follow, same, ih]

/-- Writing a file makes no directory, so paths lead where they led. -/
theorem resolve_put (tree : Tree) (place : Place) (bytes : Bytes) (path : String) :
    (tree.put place bytes).resolve path = tree.resolve path := by
  have same : (tree.put place bytes).current = tree.current := rfl
  simp only [resolve, same, follow_put]

theorem changedOnly_put (tree : Tree) (place : Place) (bytes : Bytes) :
    World.ChangedOnly tree (tree.put place bytes) place where
  paths := tree.resolve_put place bytes
  others _ := content_put_of_ne bytes

theorem run_create (tree : Tree) (path : String) :
    (Access.create path : StateM Tree _).run tree =
      match tree.target path with
      | none => (none, tree)
      | some place => (some place, tree.put place []) := rfl

theorem run_append (tree : Tree) (place : Place) (bytes : Bytes) :
    (Access.append place bytes : StateM Tree _).run tree =
      match tree.content place with
      | none => (false, tree)
      | some before => (true, tree.put place (before ++ bytes)) := rfl

theorem opens_eq_target (tree : Tree) (path : String) :
    World.opens tree path = tree.target path := by
  rw [World.opens, run_create]
  cases tree.target path <;> rfl

instance lawfulAccess : LawfulAccess Tree where
  run_readFile _ _ := rfl
  run_isFile _ _ := rfl
  run_list _ _ := rfl
  content_of_read found := Option.bind_eq_some_iff.mp found
  run_create_of_none := by
    intro tree path refused
    rw [opens_eq_target] at refused
    rw [run_create, refused]
  run_create_of_some := by
    intro tree path place granted
    rw [opens_eq_target] at granted
    rw [run_create, granted]
    exact ⟨tree.put place [], rfl, (Option.filter_eq_some_iff.mp granted).1,
      tree.content_put_self place [], tree.changedOnly_put place []⟩
  run_append := by
    intro tree place before bytes held
    change tree.content place = some before at held
    rw [run_append, held]
    exact ⟨tree.put place (before ++ bytes), rfl, tree.content_put_self place _,
      tree.changedOnly_put place _⟩

end Semihosting.Files.Tree
