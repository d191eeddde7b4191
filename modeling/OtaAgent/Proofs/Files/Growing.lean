import OtaAgent.Proofs.Files.Resolving

set_option autoImplicit false

namespace OtaAgent.Files

namespace Tree

variable {t next last : Tree} {p : Path} {loc : Location} {places wider : Location → Prop}

/-- `next` has all directories of `t`, and further ones at `places` only; what is new lies in a
directory. -/
structure Grows (t next : Tree) (places : Location → Prop) : Prop where
  keepsDirs : t.KeepsDirs next
  made : ∀ loc, next.node? loc = some .dir → t.node? loc = some .dir ∨ places loc
  rooted : ∀ loc, next.node? loc ≠ none → t.node? loc ≠ none ∨ next.node? loc.dropLast = some .dir

theorem Grows.refl (t : Tree) (places : Location → Prop) : t.Grows t places :=
  ⟨.refl t, fun _ => .inl, fun _ => .inl⟩

theorem Grows.trans (first : t.Grows next places) (second : next.Grows last places) :
    t.Grows last places where
  keepsDirs := first.keepsDirs.trans second.keepsDirs
  made loc isDir := by
    rcases second.made loc isDir with before | there
    · exact first.made loc before
    · exact .inr there
  rooted loc there := by
    rcases second.rooted loc there with before | rooted
    · exact (first.rooted loc before).imp_right (second.keepsDirs.dirs _)
    · exact .inr rooted

theorem Grows.imp (grows : t.Grows next places) (imp : ∀ loc, places loc → wider loc) :
    t.Grows next wider :=
  ⟨grows.keepsDirs, fun loc isDir => (grows.made loc isDir).imp_right (imp loc), grows.rooted⟩

/-- Where neither a file nor a directory may have come or gone, everything is as it was. -/
theorem Grows.node? {touched : Location → Prop} (grows : t.Grows next places)
    (keeps : t.Keeps next touched) (unmade : ¬ places loc) (untouched : ¬ touched loc) :
    next.node? loc = t.node? loc := by
  have same := keeps.content loc untouched
  unfold content? at same
  cases after : next.node? loc with
  | some n => cases n with
    | dir => exact ((grows.made loc after).resolve_right unmade).symm
    | file content =>
      cases before : t.node? loc with
      | none => simp [after, before, Node.content?] at same
      | some m => cases m with
        | dir => simp [after, before, Node.content?] at same
        | file held => simpa [after, before, Node.content?] using same
  | none =>
    cases before : t.node? loc with
    | none => rfl
    | some m => cases m with
      | dir =>
        rw [grows.keepsDirs.dirs loc before] at after
        cases after
      | file held => simp [after, before, Node.content?] at same

theorem grows_put {parent : Location} {name : String} {n : Node}
    (isDir : t.node? parent = some .dir) (free : t.node? (parent ++ [name]) ≠ some .dir)
    (made : n = .dir → places (parent ++ [name])) :
    t.Grows (t.put (parent ++ [name]) n) places := by
  have keeps : t.KeepsDirs (t.put (parent ++ [name]) n) := keepsDirs_put (by simp) free
  refine ⟨keeps, fun loc there => ?_, fun loc there => ?_⟩
  · rw [node?_put t _ loc n (by simp)] at there
    split at there
    · rename_i same
      exact .inr (same ▸ made (Option.some.inj there))
    · exact .inl there
  · by_cases same : loc = parent ++ [name]
    · subst same
      right
      rw [List.dropLast_concat]
      exact keeps.dirs _ isDir
    · rw [node?_put t _ loc n (by simp), if_neg same] at there
      exact .inl there

theorem grows_makeDir (made : t.makeDir p = .ok next) : t.Grows next (· = p.lead t.cwd) := by
  unfold makeDir at made
  split at made
  · cases made
  · cases made
  · cases made
  · rename_i parent name slash placed
    split at made
    · cases made
    · rename_i isDir
      split at made
      · cases made
      · rename_i free
        cases made
        exact grows_put (Decidable.not_not.mp isDir) (by simp [free]) fun _ => place_entry placed

theorem grows_target {held : Option Bytes} (aimed : t.target p = .ok (loc, held))
    (content : Bytes) : t.Grows (t.put loc (.file content)) places := by
  obtain ⟨-, -, free, -⟩ := target_lead aimed
  obtain ⟨parent, name, -, isDir, rfl⟩ := placed_of_target aimed
  exact grows_put isDir free nofun

theorem grows_create (made : t.create p = .ok next) : t.Grows next places := by
  obtain ⟨⟨loc, held⟩, aimed, rfl⟩ := exists_ok_of_map made
  exact grows_target aimed _

theorem grows_touch (made : t.touch p = .ok next) : t.Grows next places := by
  obtain ⟨⟨loc, held⟩, aimed, rfl⟩ := exists_ok_of_map made
  exact grows_target aimed _

theorem grows_append {bytes : Bytes} (made : t.append p bytes = .ok next) :
    t.Grows next places := by
  unfold append at made
  split at made
  · rename_i aimed
    cases made
    exact grows_target aimed _
  · cases made
  · cases made

theorem grows_write {bytes : Bytes} (made : t.write p bytes = .ok next) : t.Grows next places := by
  obtain ⟨⟨loc, held⟩, aimed, rfl⟩ := exists_ok_of_map made
  exact grows_target aimed _

theorem grows_copy {src dst : Path} (made : t.copy src dst = .ok next) : t.Grows next places := by
  unfold copy at made
  split at made
  · cases made
  · cases made
  · obtain ⟨emptied, created, made⟩ := exists_ok_of_bind made
    obtain ⟨held, -, written⟩ := exists_ok_of_bind made
    exact (grows_create created).trans (grows_write written)

theorem grows_erase {content : Bytes} (sound : t.Sound)
    (isFile : t.node? loc = some (.file content)) : t.Grows (t.erase loc) places := by
  have gone {other : Location} (there : (t.erase loc).node? other ≠ none) :
      (t.erase loc).node? other = t.node? other := by
    by_cases top : other = []
    · simp [node?, top]
    · rw [erase, node?_without _ top] at there ⊢
      split
      · rename_i hit
        simp [hit] at there
      · rfl
  refine ⟨keepsDirs_erase sound isFile, fun other isDir => ?_, fun other there => ?_⟩
  · left
    rw [← gone (by simp [isDir]), isDir]
  · left
    rwa [← gone there]

theorem grows_rename {src dst : Path} (sound : t.Sound) (made : t.rename src dst = .ok next) :
    t.Grows next places := by
  obtain ⟨⟨source, held⟩, found, made⟩ := exists_ok_of_bind made
  obtain ⟨place, placed, made⟩ := exists_ok_of_bind made
  obtain ⟨-, isFile⟩ := fileAt_lead found
  split at made
  · cases made
  · cases made
  · rename_i parent name slash
    split at made
    · cases made
    · split at made
      · cases made
      · rename_i isDir
        split at made
        · cases made
        · rename_i free
          cases made
          have erased : t.Grows (t.erase source) places := grows_erase sound isFile
          refine erased.trans (grows_put (erased.keepsDirs.dirs _ (Decidable.not_not.mp isDir)) ?_
            nofun)
          rw [erase, node?_without _ (by simp)]
          split
          · simp
          · exact free

end Tree

/-- The operation changes single files only. -/
def Op.Plain : Op → Prop
  | .makeDirs _ | .removeAll _ => False
  | _ => True

theorem Op.Plain.builds {op : Op} (plain : op.Plain) : op.Builds := by
  cases op with
  | removeAll p => exact plain.elim
  | _ => trivial

theorem grows_settle {t : Tree} {result : Except IoFault Tree} {places : Location → Prop}
    (grows : ∀ next, result = .ok next → t.Grows next places) :
    t.Grows (settle t result).2 places := by
  cases result with
  | ok next => exact grows next rfl
  | error e => exact .refl t places

theorem Op.grows {op : Op} {t : Tree} {places : Location → Prop} (plain : op.Plain)
    (sound : t.Sound) : t.Grows (op.apply t).2 places := by
  cases op with
  | makeDirs p => exact plain.elim
  | probe p => exact .refl t _
  | openFile p => exact .refl t _
  | read p => exact .refl t _
  | touch p => exact grows_settle fun next made => Tree.grows_touch made
  | create p => exact grows_settle fun next made => Tree.grows_create made
  | append p bytes => exact grows_settle fun next made => Tree.grows_append made
  | copy src dst => exact grows_settle fun next made => Tree.grows_copy made
  | rename src dst => exact grows_settle fun next made => Tree.grows_rename sound made
  | removeAll p => exact plain.elim

namespace Job

variable {ε : Type} {t : Tree} {places : Location → Prop}

/-- What has grown from `t` grows on with every plain operation. -/
theorem maintains_grows {op : Op} {fault : IoFault → ε} (plain : op.Plain) (sound : t.Sound) :
    Maintains (t.Grows · places) (attempt op fault) := by
  intro next grown
  rw [runOn_attempt]
  exact grown.trans (op.grows plain (sound.of_keepsDirs grown.keepsDirs))

end Job

end OtaAgent.Files
