import OtaAgent.Delivery
import OtaAgent.Proofs.Path.Parts
import OtaAgent.Proofs.Text.Segment

set_option autoImplicit false

namespace OtaAgent

namespace Url

open Text (Segment.decode? Segment.encode Segment.decode?_encode Utf8.encode
  Utf8.encode_injective)

/-- Where a segment leads: a dot counts as one if it is written by its number, too. -/
def way (segment : List Char) : String :=
  if Segment.decode? segment = some (Utf8.encode ".") then "."
  else if Segment.decode? segment = some (Utf8.encode "..") then ".."
  else String.ofList segment

/-- What precedes the query and the fragment. -/
def hierarchy (url : List Char) : List Char := url.takeWhile fun c => c != '?' && c != '#'

/-- The segments of a url when its dot segments have been taken out. The first three runs are the
scheme, nothing and the authority; no step leads back out of these. -/
def resolved (url : List Char) : List String :=
  let runs := slashRuns (hierarchy url)
  (runs.take 3).map String.ofList ++ Path.follow [] ((runs.drop 3).map way)

variable {name : String}

theorem way_encode (name : String) : way (Segment.encode name).toList =
    if name = "." then "." else if name = ".." then ".." else Segment.encode name := by
  simp only [way, Segment.decode?_encode, Option.some.injEq, Utf8.encode_injective.eq_iff,
    String.ofList_toList]

/-- The segment that a name is written as leads nowhere or back exactly if the name does. -/
theorem way_encode_eq {dots : String} (isDots : dots = "." ∨ dots = "..") :
    way (Segment.encode name).toList = dots ↔ name = dots := by
  have self : Segment.encode dots = dots := by rcases isDots with rfl | rfl <;> decide
  rw [way_encode]
  constructor
  · intro same
    split at same
    · rename_i here
      rw [here, same]
    · split at same
      · rename_i up
        rw [up, same]
      · exact Text.Segment.encode_injective (same.trans self.symm)
  · rintro rfl
    rcases isDots with rfl | rfl <;> rfl

theorem descends_map_way (names : List String) (depth : Nat) :
    Path.descends depth (names.map fun name => way (Segment.encode name).toList) =
      Path.descends depth names := by
  induction names generalizing depth with
  | nil => rfl
  | cons name names ih =>
    simp only [List.map_cons, Path.descends, way_encode_eq (.inl rfl), way_encode_eq (.inr rfl), ih]

end Url

namespace Delivery

/-- The names behind the base, one for each component but the root. -/
def steps (file : Path) : List String := file.parts.filterMap segment?

theorem segment?_ofName (n : String) : segment? (.ofName n) = some n := by
  unfold Path.Part.ofName
  split
  · rename_i up
    rw [up]
    rfl
  · rfl

theorem steps_eq (p : Path) :
    steps p = p.opening.filterMap segment? ++ p.names.filter (· ≠ ".") := by
  have named : (segment? ∘ Path.Part.ofName) = some := funext segment?_ofName
  rw [steps, Path.parts_eq, List.filterMap_append, List.filterMap_map, named,
    List.filterMap_some]

/-- An absolute path has no components but the root and those that are named behind the base. -/
theorem parts_of_isAbsolute {p : Path} (absolute : p.isAbsolute = true) :
    p.parts = .root :: (steps p).map .ofName := by
  have opening : p.opening = [.root] := if_pos absolute
  rw [steps_eq, Path.parts_eq, opening]
  rfl

/-- Only components that step nowhere or back have the name of a step. -/
theorem segment?_dots {p : Path} {part : Path.Part} (among : part ∈ p.parts) {name : String}
    (named : segment? part = some name) :
    (name = "." ↔ part = .here) ∧ (name = ".." ↔ part = .up) := by
  rw [Path.parts_eq, List.mem_append] at among
  cases part with
  | root => cases named
  | here => cases named; decide
  | up => cases named; decide
  | name s =>
    cases named
    rcases among with opens | among
    · unfold Path.opening at opens
      split at opens
      · simp at opens
      · split at opens <;> simp at opens
    · obtain ⟨n, kept, same⟩ := List.mem_map.mp among
      have notHere : n ≠ "." := by simpa using (List.mem_filter.mp kept).2
      unfold Path.Part.ofName at same
      split at same
      · cases same
      · rename_i notUp
        cases same
        simp [notHere, notUp]

/-- A path without components that step back stays where it sets out from. -/
theorem descends_steps {p : Path} (level : .up ∉ p.parts) : Path.descends 0 (steps p) = true := by
  have notUp : ∀ name ∈ steps p, name ≠ ".." := by
    rintro name among rfl
    obtain ⟨part, inside, named⟩ := List.mem_filterMap.mp among
    exact level ((segment?_dots inside named).2.mp rfl ▸ inside)
  have each (names : List String) (depth : Nat) (notUp : ∀ name ∈ names, name ≠ "..") :
      Path.descends depth names = true := by
    induction names generalizing depth with
    | nil => rfl
    | cons name names ih =>
      rw [List.forall_mem_cons] at notUp
      simp only [Path.descends, if_neg notUp.1, ih _ notUp.2, ite_self]
  exact each _ 0 notUp

theorem dropSlashes_append (cs : List Char) :
    (∃ n, cs = dropSlashes cs ++ List.replicate n '/') ∧
      (dropSlashes cs).getLast? ≠ some '/' := by
  have all : ∀ c ∈ cs.reverse.takeWhile (· == '/'), c = '/' := fun c among => by
    simpa using List.mem_takeWhile_imp among
  have slashes := List.eq_replicate_of_mem all
  have whole := congrArg List.reverse
    (List.takeWhile_append_dropWhile (p := (· == '/')) (l := cs.reverse))
  rw [List.reverse_append, List.reverse_reverse, slashes, List.reverse_replicate] at whole
  refine ⟨⟨_, whole.symm⟩, ?_⟩
  have first := List.head?_dropWhile_not (· == '/') cs.reverse
  rw [dropSlashes, List.getLast?_reverse]
  intro last
  rw [last] at first
  cases first

namespace Server

variable (s : Server) (file : Path)

open Text (Segment.encode Segment.decode? Utf8.encode)

theorem toList_urlOf : (s.urlOf file).toList =
    s.baseUrl.toList ++ (steps file).flatMap fun name => '/' :: (Segment.encode name).toList := by
  rw [urlOf, ← steps, String.toList_append, String.toList_join, List.flatMap_map]
  simp

/-- The segments are the runs behind those of the base, since none of them has a slash. -/
theorem slashRuns_urlOf : slashRuns (s.urlOf file).toList =
    slashRuns s.baseUrl.toList ++ (steps file).map fun name => (Segment.encode name).toList := by
  rw [toList_urlOf]
  generalize s.baseUrl.toList = front
  induction steps file generalizing front with
  | nil => simp
  | cons name names ih =>
    have plain : '/' ∉ (Segment.encode name).toList := Text.Segment.notMem_encode name (by simp)
    rw [List.flatMap_cons, List.cons_append, slashRuns_append, ih, slashRuns_of_notMem plain]
    rfl

theorem steps_of_urlOf_eq {file other : Path} (same : s.urlOf file = s.urlOf other) :
    steps file = steps other := by
  have runs := slashRuns_urlOf s file
  rw [same, slashRuns_urlOf, List.append_cancel_left_eq] at runs
  refine ((List.map_inj_right fun n m equal => ?_).mp runs).symm
  exact Text.Segment.encode_injective (String.toList_inj.mp equal)

/-- A query or a fragment can only begin in the base, and then reaches over the segments. -/
theorem hierarchy_urlOf :
    Url.hierarchy s.baseUrl.toList = s.baseUrl.toList ∧
        Url.hierarchy (s.urlOf file).toList = (s.urlOf file).toList ∨
      Url.hierarchy (s.urlOf file).toList = Url.hierarchy s.baseUrl.toList := by
  have passes : ∀ c ∈ (steps file).flatMap fun name => '/' :: (Segment.encode name).toList,
      (c != '?' && c != '#') = true := by
    intro c among
    obtain ⟨name, -, among⟩ := List.mem_flatMap.mp among
    rcases List.mem_cons.mp among with rfl | among
    · decide
    · have other (d : Char) (divides : d ∈ ['/', '?', '#']) : c ≠ d := by
        rintro rfl
        exact Text.Segment.notMem_encode name divides among
      simp [other '?', other '#']
  have kept := List.takeWhile_prefix (fun c => c != '?' && c != '#') (l := s.baseUrl.toList)
  simp only [Url.hierarchy, toList_urlOf, List.takeWhile_append,
    List.takeWhile_eq_self_iff.mpr passes]
  split
  · rename_i all
    exact .inl ⟨kept.eq_of_length all, rfl⟩
  · exact .inr rfl

/-- Without dot segments the url lies below the base, if the path never steps back out of where it
sets out from. -/
theorem resolved_urlOf (descends : Path.descends 0 (steps file) = true) :
    Url.resolved s.baseUrl.toList <+: Url.resolved (s.urlOf file).toList := by
  rcases hierarchy_urlOf s file with ⟨base, whole⟩ | query
  · rw [Url.resolved, Url.resolved, base, whole, slashRuns_urlOf]
    generalize slashRuns s.baseUrl.toList = runs
    by_cases long : 3 ≤ runs.length
    · rw [List.take_append_of_le_length long, List.drop_append_of_le_length long, List.map_append,
        Path.follow_append, List.map_map, List.prefix_append_right_inj]
      exact Path.prefix_follow _ ((Url.descends_map_way _ 0).trans descends) List.prefix_rfl
    · -- The base ends within the authority, and nothing of it is a segment.
      have short : runs.length ≤ 3 := by omega
      rw [List.take_of_length_le short, List.drop_eq_nil_of_le short, List.take_append,
        List.take_of_length_le short, List.map_append, List.append_assoc]
      exact (List.append_nil _).symm ▸ List.prefix_append _ _
  · have same : Url.resolved s.baseUrl.toList = Url.resolved (s.urlOf file).toList := by
      rw [Url.resolved, Url.resolved, query]
    exact same ▸ List.prefix_rfl

/-- How the url of `file` is made of the base that is configured and of the components. -/
structure Mirrors (base : String) (s : Server) (file : Path) : Prop where
  trimmed : (∃ n, base.toList = s.baseUrl.toList ++ List.replicate n '/') ∧
    s.baseUrl.toList.getLast? ≠ some '/'
  /-- Behind the base stands one segment for each component but the root. -/
  text : (s.urlOf file).toList =
    s.baseUrl.toList ++ (steps file).flatMap fun name => '/' :: (Segment.encode name).toList
  /-- Each segment holds no slash and stands for the name of its component. -/
  reads : ∀ name ∈ steps file, '/' ∉ (Segment.encode name).toList ∧
    Segment.decode? (Segment.encode name).toList = some (Utf8.encode name)
  /-- A segment is a dot segment exactly if its component steps nowhere or back. -/
  dots : ∀ part ∈ file.parts, ∀ name, segment? part = some name →
    (Url.way (Segment.encode name).toList = "." ↔ part = .here) ∧
      (Url.way (Segment.encode name).toList = ".." ↔ part = .up)
  /-- The url lies below the base if the path never steps back out of where it sets out from. -/
  below : .up ∉ file.parts ∨ Path.descends 0 (steps file) = true →
    Url.resolved s.baseUrl.toList <+: Url.resolved (s.urlOf file).toList

/-- The url of a path is the base without the slashes at its end and a segment for each component,
from which the component can be read; absolute paths with different components have different urls.
The url stays below the base where no component steps back, or none further than the path has come;
else the step back is passed on to the server. -/
theorem urlOf_mirrors (base : String) (timeout : Nat) (file : Path) :
    Mirrors base (.ofBase base timeout) file ∧
      ∀ other : Path, file.isAbsolute = true → other.isAbsolute = true →
        (ofBase base timeout).urlOf file = (ofBase base timeout).urlOf other →
          file.parts = other.parts := by
  refine ⟨⟨?trimmed, toList_urlOf _ file, ?reads, ?dots, ?below⟩, ?apart⟩
  case trimmed =>
    rw [ofBase, String.toList_ofList]
    exact dropSlashes_append base.toList
  case reads =>
    intro name _
    exact ⟨Text.Segment.notMem_encode name (by simp), Text.Segment.decode?_encode name⟩
  case dots =>
    intro part among name named
    rw [Url.way_encode_eq (.inl rfl), Url.way_encode_eq (.inr rfl)]
    exact segment?_dots among named
  case below =>
    intro stays
    exact resolved_urlOf _ file (stays.elim descends_steps id)
  case apart =>
    intro other absolute absolute' same
    rw [parts_of_isAbsolute absolute, parts_of_isAbsolute absolute', steps_of_urlOf_eq _ same]

theorem urlOf_mirrors_blanks :
    let s := ofBase "http://staging:8080/pkgs/" 300
    let file : Path := ⟨"/data/my app/app 2.0.pkg"⟩
    Mirrors "http://staging:8080/pkgs/" s file ∧
      s.urlOf file = "http://staging:8080/pkgs/data/my%20app/app%202.0.pkg" ∧
      Url.resolved s.baseUrl.toList <+: Url.resolved (s.urlOf file).toList ∧
      s.urlOf file ≠ s.urlOf ⟨"/data/my/app/app 2.0.pkg"⟩ := by
  intro s file
  obtain ⟨mirrors, apart⟩ := urlOf_mirrors "http://staging:8080/pkgs/" 300 file
  have parts : file.parts ≠ (Path.mk "/data/my/app/app 2.0.pkg").parts := by decide
  exact ⟨mirrors, by decide +kernel, mirrors.below (.inl (by decide)),
    fun same => parts (apart _ (by decide) (by decide) same)⟩

/-- A component that steps back is a segment of the url, which then leaves the base. -/
theorem urlOf_leaves_base :
    let s := ofBase "http://staging:8080/pkgs/" 300
    let file : Path := ⟨"/../keys"⟩
    steps file = ["..", "keys"] ∧ s.urlOf file = "http://staging:8080/pkgs/../keys" ∧
      Url.resolved s.baseUrl.toList = ["http:", "", "staging:8080", "pkgs"] ∧
      Url.resolved (s.urlOf file).toList = ["http:", "", "staging:8080", "keys"] ∧
      ¬ Url.resolved s.baseUrl.toList <+: Url.resolved (s.urlOf file).toList := by
  decide +kernel

end Server
end Delivery
end OtaAgent
