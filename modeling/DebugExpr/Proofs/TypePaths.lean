import DebugExpr.Proofs.MemberSearch
import DebugExpr.Proofs.SampleScope
import DebugExpr.Proofs.TrackedBinding

/-! Dotted paths to types. A path whose first name is unknown is looked for as a type, and so is
each of its beginnings before it: the shortest one that names a type is taken for that type, and
what stands behind it is looked for among members alone. A static member is reached behind a path
of which no beginning names a type, and a nested type is not reached behind the type around it. -/
namespace DebugExpr.Bound.Scope
open Metadata Source
variable {s : Scope} {e target : Expr} {path before behind : List String} {first next name : String}
  {type outer : ClosedType}

/-- The type that a dotted path means. -/
def pathType (s : Scope) (path : List String) : Except Error ClosedType :=
  s.resolveType (.named false (path.map fun part => (part, [])))

/-- The path names a type. -/
def NamesType (s : Scope) (path : List String) : Prop :=
  (s.pathType path).toOption.isSome = true

instance : Decidable (s.NamesType path) :=
  inferInstanceAs (Decidable (_ = true))

/-- No beginning of the path but the whole of it names a type. -/
def Unentered (s : Scope) (path : List String) : Prop :=
  ∀ n < path.length, ¬s.NamesType (path.take n)

instance : Decidable (s.Unentered path) :=
  inferInstanceAs (Decidable (∀ n < path.length, ¬s.NamesType (path.take n)))

theorem namesType_iff : s.NamesType path ↔ ∃ type, s.pathType path = .ok type := by
  unfold NamesType
  cases s.pathType path <;> simp [Except.toOption]

/-- There has to be a last name, which is never that of a namespace. -/
theorem not_namesType_nil : ¬s.NamesType [] := by
  rw [namesType_iff]
  rintro ⟨type, resolves⟩
  cases resolves

theorem Unentered.take (unentered : s.Unentered (before ++ behind)) : s.Unentered before := by
  intro n short
  have inside := unentered n (by simp only [List.length_append]; omega)
  rwa [List.take_append_of_le_length (Nat.le_of_lt short)] at inside

theorem Unentered.not_namesType (unentered : s.Unentered (before ++ next :: behind)) :
    ¬s.NamesType before := by
  simpa using unentered before.length (by simp)

section Unknown

/-- The error is no unknown name, so that nothing is tried as a type after it. -/
def Settled : Error → Prop
  | .undefinedName _ => False
  | _ => True

theorem settled_of_ofSignature {e : Error} (ofSignature : e.OfSignature) : Settled e := by
  cases e with
  | undefinedName => exact ofSignature
  | _ => trivial

theorem Settled.ne {e : Error} (settled : Settled e) (name : String) : e ≠ .undefinedName name := by
  rintro rfl
  exact settled

theorem declaredMember_settled (name : String) (invoked : Bool) (type : ClosedType) :
    Raises Settled (s.declaredMember name invoked type) := by
  have typed (home : ModuleId) (args : List ClosedType) (m : Metadata.Member) :
      Raises Settled (s.memberRef type home args m) :=
    ((Snapshot.bind_ofSignature m.signature).mono fun _ => settled_of_ofSignature).bind
      fun _ => raises_ok
  cases type with
  | array => exact raises_ok
  | named home d args =>
    simp only [declaredMember]
    generalize (if (d.methodsNamed name).isEmpty then none
      else some (Member.methods (.named home d args) (d.methodsNamed name))) = group
    split
    · exact raises_ok
    split
    · exact (typed home args _).bind fun _ => raises_ok
    split
    · exact (typed home args _).bind fun _ => raises_ok
    · exact raises_ok

theorem findMember_settled (type : ClosedType) (name : String) (invoked : Bool) :
    Raises Settled (s.findMember type name invoked) := by
  unfold findMember
  generalize s.config.maxInheritanceDepth = steps
  induction steps generalizing type with
  | zero =>
    unfold findMemberWithin
    refine (declaredMember_settled name invoked type).bind fun found => ?_
    cases found with
    | some => exact raises_ok
    | none => exact raises_error trivial
  | succ steps ih =>
    unfold findMemberWithin
    refine (declaredMember_settled name invoked type).bind fun found => ?_
    cases found with
    | some => exact raises_ok
    | none =>
      refine Raises.bind ((Snapshot.baseType_ofSignature type).mono
        fun _ => settled_of_ofSignature) fun base? => ?_
      cases base? with
      | none => exact raises_ok
      | some base => exact ih base

theorem memberTerm_settled (receiver : Receiver) (name : String) (typeArgs : List TypeExpr) :
    Raises Settled (s.memberTerm receiver name typeArgs) := by
  have typed : Raises Settled (receiverType name receiver) := by
    unfold receiverType
    repeat' split
    all_goals first
      | exact raises_ok
      | exact raises_error trivial
  refine typed.bind fun found => (findMember_settled found.2 name false).bind fun member => ?_
  dsimp only
  repeat' split
  all_goals first
    | exact raises_ok
    | exact raises_error trivial

end Unknown

/-- An unknown name before a dot is taken for the type to which it is a path. -/
theorem receiver_path (isPath : pathNames? e = some path) (resolves : s.pathType path = .ok type) :
    s.receiver e (.error (.undefinedName first)) = .ok (.type type) := by
  rw [pathType] at resolves
  simp only [receiver, isPath, Option.map_some, resolves]

theorem receiver_unknown (isPath : pathNames? e = some path) (noType : ¬s.NamesType path) :
    s.receiver e (.error (.undefinedName first)) = .error (.undefinedName first) := by
  rw [namesType_iff] at noType
  cases resolves : s.pathType path with
  | ok type => exact absurd ⟨type, resolves⟩ noType
  | error failure =>
    rw [pathType] at resolves
    simp only [receiver, isPath, Option.map_some, resolves]

/-- What is bound before a dot, and not an unknown name, stands there for its value. -/
theorem receiver_settled {bound : Except Error Term} (settled : Raises Settled bound) :
    s.receiver e bound = bound >>= fun t => .ok (.value t) := by
  cases result : bound with
  | ok t => rfl
  | error failure => exact receiver_of_error (settled failure result).ne

/-- Members one behind the other, of which each one is looked for in what stands before it. -/
def follow (s : Scope) (receiver : Receiver) (names : List String) : Except Error Receiver :=
  names.foldlM (fun receiver name => s.memberTerm receiver name [] >>= fun t => .ok (.value t))
    receiver

theorem follow_snoc (receiver : Receiver) (names : List String) (name : String) :
    s.follow receiver (names ++ [name]) =
      (s.follow receiver names >>= fun found => s.memberTerm found name []) >>=
        fun t => .ok (.value t) := by
  simp only [follow, List.foldlM_append, List.foldlM_cons, List.foldlM_nil, bind_pure, bind_assoc]

theorem follow_settled (receiver : Receiver) (names : List String) :
    Raises Settled (s.follow receiver names) := by
  induction names generalizing receiver with
  | nil => exact raises_ok
  | cons name rest ih =>
    rw [follow, List.foldlM_cons]
    exact ((memberTerm_settled receiver name []).bind fun _ => raises_ok).bind ih

/-- A path is a name, or it is a shorter path and a name behind it. -/
theorem pathNames?_induction {P : Expr → List String → Prop} {e : Expr} {path : List String}
    (name : ∀ position name, P (.name position name []) [name])
    (member : ∀ position target path name, pathNames? target = some path → P target path →
      P (.member position target name []) (path ++ [name]))
    (isPath : pathNames? e = some path) : P e path := by
  cases e with
  | name position n typeArgs =>
    cases typeArgs with
    | nil =>
      obtain rfl := Option.some.inj isPath
      exact name position n
    | cons => cases isPath
  | member position target n typeArgs =>
    cases typeArgs with
    | nil =>
      obtain ⟨before, found, rfl⟩ := Option.map_eq_some_iff.mp isPath
      exact member position target before n found (pathNames?_induction name member found)
    | cons => cases isPath
  | _ => cases isPath

theorem pathNames?_member {position : Nat} (isPath : pathNames? target = some path) :
    pathNames? (.member position target name []) = some (path ++ [name]) := by
  rw [pathNames?, isPath]
  rfl

theorem pathNames?_ne_nil (isPath : pathNames? e = some path) : path ≠ [] :=
  pathNames?_induction (P := fun _ path => path ≠ []) (fun _ _ => List.cons_ne_nil _ _)
    (fun _ _ _ _ _ _ => List.concat_ne_nil _ _) isPath

/-- A path of which no beginning names a type is as unknown as its first name. -/
theorem bind_unentered (unknown : s.simpleNameTerm? first = .ok none)
    (isPath : pathNames? e = some path) (begins : path.head? = some first)
    (unentered : s.Unentered path) : s.bind e = .error (.undefinedName first) := by
  refine pathNames?_induction (P := fun e path => path.head? = some first → s.Unentered path →
    s.bind e = .error (.undefinedName first)) ?_ ?_ isPath begins unentered
  · rintro position name ⟨⟩ -
    simp only [Scope.bind, nameTerm, unknown, ok_bind]
    rfl
  · intro position target path name isPath ih begins unentered
    rw [List.head?_append_of_ne_nil _ (pathNames?_ne_nil isPath)] at begins
    rw [Scope.bind, ih begins unentered.take, receiver_unknown isPath unentered.not_namesType]
    rfl

/-- The shortest beginning of a path that names a type is taken for that type. -/
theorem receiver_unentered (unknown : s.simpleNameTerm? first = .ok none)
    (isPath : pathNames? e = some path) (begins : path.head? = some first)
    (unentered : s.Unentered path) (resolves : s.pathType path = .ok type) :
    s.receiver e (s.bind e) = .ok (.type type) := by
  rw [bind_unentered unknown isPath begins unentered, receiver_path isPath resolves]

/-- The names behind the shortest beginning that names a type lead from member to member. -/
theorem receiver_entered (unknown : s.simpleNameTerm? first = .ok none)
    (isPath : pathNames? e = some path) (begins : path.head? = some first)
    (split : path = before ++ behind) (unentered : s.Unentered before)
    (enters : s.pathType before = .ok outer) :
    s.receiver e (s.bind e) = s.follow (.type outer) behind := by
  have named : before ≠ [] := by
    rintro rfl
    exact not_namesType_nil (namesType_iff.mpr ⟨outer, enters⟩)
  -- a path grows at its end: the last name completes the beginning, or it stands behind it
  refine pathNames?_induction (P := fun e path => ∀ behind, path.head? = some first →
    path = before ++ behind → s.receiver e (s.bind e) = s.follow (.type outer) behind)
    ?_ ?_ isPath behind begins split
  · intro position name behind begins split
    obtain ⟨rfl, -⟩ | ⟨rfl, rfl⟩ := List.append_eq_singleton_iff.mp split.symm
    · exact absurd rfl named
    · exact receiver_unentered unknown rfl begins unentered enters
  · intro position target path name isPath ih behind begins split
    rcases List.eq_nil_or_concat behind with rfl | ⟨shorter, last, rfl⟩
    · rw [List.append_nil] at split
      subst split
      exact receiver_unentered unknown (pathNames?_member isPath) begins unentered enters
    · rw [List.concat_eq_append, ← List.append_assoc] at split
      obtain ⟨rfl, ⟨⟩⟩ := List.append_inj' split rfl
      rw [List.head?_append_of_ne_nil _ (pathNames?_ne_nil isPath)] at begins
      rw [Scope.bind, ih shorter begins rfl, List.concat_eq_append, follow_snoc]
      exact receiver_settled ((follow_settled _ _).bind fun _ => memberTerm_settled _ _ _)

/-- A path to a type has a shortest beginning that names one. -/
theorem exists_entry (path : List String) (names : s.NamesType path) : ∃ before behind outer,
    path = before ++ behind ∧ s.Unentered before ∧ s.pathType before = .ok outer := by
  by_cases unentered : s.Unentered path
  · obtain ⟨type, resolves⟩ := namesType_iff.mp names
    exact ⟨path, [], type, (List.append_nil path).symm, unentered, resolves⟩
  · obtain ⟨n, short, named⟩ : ∃ n < path.length, s.NamesType (path.take n) := by
      simpa [Unentered] using unentered
    obtain ⟨before, behind, outer, split, shortest, enters⟩ :=
      exists_entry (path.take n) named
    refine ⟨before, behind ++ path.drop n, outer, ?_, shortest, enters⟩
    rw [← List.append_assoc, ← split, List.take_append_drop]
termination_by path.length
decreasing_by simp; omega

/-- A static member of a type is found behind its name alone. -/
theorem memberTerm_static_field {f : MemberRef} (isStatic : f.isStatic = true)
    (finds : s.findMember type name false = .ok (some (.field f))) :
    s.memberTerm (.type type) name [] = .ok (.field none f) := by
  simp only [memberTerm, receiverType, ok_bind, finds, keepReceiver, isStatic]
  rfl

theorem memberTerm_static_property {p : MemberRef} (isStatic : p.isStatic = true)
    (finds : s.findMember type name false = .ok (some (.property p))) :
    s.memberTerm (.type type) name [] = .ok (.property none p) := by
  simp only [memberTerm, receiverType, ok_bind, finds, keepReceiver, isStatic]
  rfl

/-- A static member of the type that a path with an unknown first name means is reached behind the
path, as long as no shorter beginning of it names a type. In any case the shortest beginning that
names one is taken for that type, and all names behind it are those of members. -/
theorem bind_typePath_member (s : Scope) (position : Nat) (name : String)
    (isPath : pathNames? e = some path) (begins : path.head? = some first)
    (unknown : s.simpleNameTerm? first = .ok none) (resolves : s.pathType path = .ok type) :
    (s.Unentered path →
      (∀ f : MemberRef, f.isStatic = true →
        s.findMember type name false = .ok (some (.field f)) →
        s.bind (.member position e name []) = .ok (.field none f)) ∧
      ∀ p : MemberRef, p.isStatic = true →
        s.findMember type name false = .ok (some (.property p)) →
        s.bind (.member position e name []) = .ok (.property none p)) ∧
    ∃ before behind outer, path = before ++ behind ∧ s.Unentered before ∧
      s.pathType before = .ok outer ∧
      s.bind (.member position e name []) =
        s.follow (.type outer) behind >>= fun found => s.memberTerm found name [] := by
  constructor
  · intro unentered
    have reached : s.bind (.member position e name []) = s.memberTerm (.type type) name [] := by
      rw [Scope.bind, receiver_unentered unknown isPath begins unentered resolves, ok_bind]
    exact ⟨fun f isStatic finds => reached.trans (memberTerm_static_field isStatic finds),
      fun p isStatic finds => reached.trans (memberTerm_static_property isStatic finds)⟩
  · obtain ⟨before, behind, outer, split, unentered, enters⟩ :=
      exists_entry path (namesType_iff.mpr ⟨type, resolves⟩)
    refine ⟨before, behind, outer, split, unentered, enters, ?_⟩
    rw [Scope.bind, receiver_entered unknown isPath begins split unentered enters]

section Instance
open Sample

/-- `class Geo.Book { static int Count; }`. -/
def book : TypeDefinition :=
  TypeDeclaration.define
    { fullName := "Geo.Book"
      kind := .classType
      fields := [⟨"Count", .ofPrimitive .int32, true⟩] }
    (.typeDefinition 1)

/-- `class Geo.Maps.Atlas : Geo.Book { class Plate { static int Count; } }`. -/
def atlas : TypeDefinition :=
  TypeDeclaration.define
    { fullName := "Geo.Maps.Atlas"
      kind := .classType
      base := some (.plain "Geo.Book") }
    (.typeDefinition 2)

def plate : TypeDefinition :=
  TypeDeclaration.define
    { fullName := "Geo.Maps.Atlas+Plate"
      kind := .classType
      fields := [⟨"Count", .ofPrimitive .int32, true⟩] }
    (.typeDefinition 3)

/-- The process is suspended in the core library. -/
def atlasScope : Scope :=
  { scope [] [] with
    snapshot := (Snapshot.empty.add core).add
      (.ofDefinitions ⟨"App", ⟨1, 0, 0, 0⟩, none, none⟩ [book, atlas, plate]) }

/-- Neither the class of the frame nor the root class has a member `Geo`. -/
theorem geo_unknown : atlasScope.simpleNameTerm? "Geo" = .ok none := by
  have noMember : atlasScope.findMember atlasScope.frame.containing "Geo" false = .ok none :=
    (findMemberWithin_base (Sample.type .object) rfl rfl).trans
      (findMemberWithin_top rfl rfl)
  rw [simpleNameTerm?, noMember]
  rfl

/-- The path `Geo.Maps.Atlas`. -/
def atlasPath : Expr :=
  .member 8 (.member 3 (.name 0 "Geo" []) "Maps" []) "Atlas" []

theorem atlas_finds_count : atlasScope.findMember (.named ⟨1⟩ atlas []) "Count" false =
    .ok (some (.field ⟨.named ⟨1⟩ book [], "Count", Sample.type .int32, true⟩)) :=
  (findMemberWithin_base (.named ⟨1⟩ book []) rfl rfl).trans
    (findMemberWithin_here (.inr (.inl ⟨_, List.mem_cons_self, rfl⟩)))

/-- Behind `Geo.Maps.Atlas`, `Count` is the field of its base type. -/
theorem atlas_count_reached : atlasScope.Unentered ["Geo", "Maps", "Atlas"] ∧
    atlasScope.bind (.member 14 atlasPath "Count" []) =
      .ok (.field none ⟨.named ⟨1⟩ book [], "Count", Sample.type .int32, true⟩) := by
  have unentered : atlasScope.Unentered ["Geo", "Maps", "Atlas"] := by decide
  have reached := (bind_typePath_member (e := atlasPath) atlasScope 14 "Count" rfl rfl
    geo_unknown rfl).1 unentered
  exact ⟨unentered, reached.1 _ rfl atlas_finds_count⟩

/-- Nothing on the way from `Geo.Maps.Atlas` to the root class is a member `Plate`. -/
theorem atlas_misses_plate :
    atlasScope.findMember (.named ⟨1⟩ atlas []) "Plate" false = .ok none :=
  (findMemberWithin_base (.named ⟨1⟩ book []) rfl rfl).trans
    ((findMemberWithin_base (Sample.type .object) rfl rfl).trans
      (findMemberWithin_top rfl rfl))

/-- Behind `Geo.Maps.Atlas.Plate`, which is a path to a type with such a field, it is not reached,
since `Geo.Maps.Atlas` is a type already and has no member of that name. -/
theorem plate_count_not_reached :
    pathNames? (.member 14 atlasPath "Plate" []) = some ["Geo", "Maps", "Atlas", "Plate"] ∧
    atlasScope.simpleNameTerm? "Geo" = .ok none ∧
    atlasScope.pathType ["Geo", "Maps", "Atlas", "Plate"] = .ok (.named ⟨1⟩ plate []) ∧
    atlasScope.findMember (.named ⟨1⟩ plate []) "Count" false =
      .ok (some (.field ⟨.named ⟨1⟩ plate [], "Count", Sample.type .int32, true⟩)) ∧
    atlasScope.bind (.member 20 (.member 14 atlasPath "Plate" []) "Count" []) =
      .error (.memberNotFound "Geo.Maps.Atlas" "Plate") := by
  refine ⟨rfl, geo_unknown, rfl, ?_, ?_⟩
  · exact findMemberWithin_here (.inr (.inl ⟨_, List.mem_cons_self, rfl⟩))
  · have entered : atlasScope.receiver atlasPath (atlasScope.bind atlasPath) =
        .ok (.type (.named ⟨1⟩ atlas [])) :=
      receiver_unentered geo_unknown rfl rfl (by decide) rfl
    rw [Scope.bind, Scope.bind, entered, ok_bind, memberTerm, receiverType, ok_bind]
    simp only [atlas_misses_plate]
    rfl

end Instance

end DebugExpr.Bound.Scope
