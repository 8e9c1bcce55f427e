import DebugExpr.Proofs.ResolutionOutcomes
import DebugExpr.Proofs.TypeNames

/-! The limit on nesting, in reading and in resolution. Reading counts generic arguments in brackets
and without them alike, and resolution counts the same levels. What is read within a limit, or is
refused for another reason than the limit, is read or refused in the same way with every larger one;
and no name that was read within a limit reaches that limit when it is resolved. -/
namespace DebugExpr.QualifiedName
open Text Parsing

variable {α β : Type}

/-- Both computations come to the same, unless the first ends at the limit on nesting. -/
def Settles (x y : Except Error α) : Prop :=
  (∃ limit, x = .error (.tooDeep limit)) ∨ x = y

section Computations
variable {x y : Except Error α}

theorem Settles.refl (x : Except Error α) : Settles x x :=
  .inr rfl

theorem settles_tooDeep {limit : Nat} : Settles (.error (.tooDeep limit)) y :=
  .inl ⟨limit, rfl⟩

theorem Settles.bind {f g : α → Except Error β} (first : Settles x y)
    (next : ∀ a, Settles (f a) (g a)) : Settles (x >>= f) (y >>= g) := by
  obtain ⟨limit, rfl⟩ | rfl := first
  · exact settles_tooDeep
  · cases x with
    | error e => exact .refl _
    | ok a => exact next a

theorem iterate_settles {step step' : α → List Char → Except Error (Option (α × List Char))}
    (each : ∀ value input, Settles (step value input) (step' value input)) (value : α)
    (input : List Char) : Settles (iterate step value input) (iterate step' value input) := by
  fun_induction iterate step value input with
  | case1 value input e failed =>
    obtain ⟨limit, deep⟩ | same := each value input
    · obtain rfl : e = .tooDeep limit := by simpa [failed] using deep
      exact settles_tooDeep
    · rw [failed] at same
      rw [iterate_eq_error same.symm]
      exact .refl _
  | case2 value input ends =>
    obtain ⟨limit, deep⟩ | same := each value input
    · cases ends.symm.trans deep
    · rw [ends] at same
      rw [iterate_eq_ok same.symm]
      exact .refl _
  | case3 value input next rest taken shorter ih =>
    obtain ⟨limit, deep⟩ | same := each value input
    · cases taken.symm.trans deep
    · rw [taken] at same
      rwa [iterate_step same.symm shorter]
  | case4 value input next rest taken longer =>
    obtain ⟨limit, deep⟩ | same := each value input
    · cases taken.symm.trans deep
    · rw [taken] at same
      rw [iterate, ← same]
      exact .inr (if_neg longer).symm

theorem separated_settles {separator : List Char → Option (List Char)}
    {item item' : List Char → Except Error (α × List Char)}
    (each : ∀ input, Settles (item input) (item' input)) (input : List Char) :
    Settles (separated separator item input) (separated separator item' input) := by
  refine (each input).bind fun first => iterate_settles (fun items input => ?_) _ _
  dsimp only
  split
  · exact .refl _
  · exact (each _).bind fun next => .refl _

end Computations

section Readers
variable {length limit limit' : Nat}

-- positions depend on the length of the input alone, so that only arguments are read with the limit

theorem takePath_limit : takePath ⟨length, limit⟩ = takePath ⟨length, limit'⟩ :=
  rfl

theorem takeRank_limit (rank : Nat) (input : List Char) :
    takeRank ⟨length, limit⟩ rank input = takeRank ⟨length, limit'⟩ rank input := by
  induction input generalizing rank with
  | nil => rfl
  | cons c rest ih => simp only [takeRank, ih, Source.unexpected, Source.position]

theorem takeSuffixes_limit : takeSuffixes ⟨length, limit⟩ = takeSuffixes ⟨length, limit'⟩ := by
  have array : takeArray ⟨length, limit⟩ = takeArray ⟨length, limit'⟩ := by
    funext input
    unfold takeArray
    split
    · rfl
    · exact takeRank_limit 1 _
  unfold takeSuffixes
  rw [array]

variable {spec spec' : List Char → Except Error (QualifiedName × List Char)}

theorem takeArgument_settles (each : ∀ input, Settles (spec input) (spec' input))
    (input : List Char) :
    Settles (takeArgument ⟨length, limit⟩ spec input)
      (takeArgument ⟨length, limit'⟩ spec' input) := by
  unfold takeArgument
  split
  · exact (each _).bind fun _ => .refl _
  · exact each _

theorem takeArguments_settles (each : ∀ input, Settles (spec input) (spec' input))
    (input : List Char) :
    Settles (takeArguments ⟨length, limit⟩ spec input)
      (takeArguments ⟨length, limit'⟩ spec' input) :=
  (separated_settles (takeArgument_settles each) input).bind fun _ => .refl _

/-- Arguments cost one level each, with brackets around them or without. -/
theorem takeSpec_settles {levels levels' : Nat} (fits : levels ≤ levels') (input : List Char) :
    Settles (takeSpec ⟨length, limit⟩ levels input) (takeSpec ⟨length, limit'⟩ levels' input) := by
  induction levels generalizing levels' input with
  | zero => exact settles_tooDeep
  | succ levels ih =>
    obtain ⟨levels', rfl⟩ := Nat.exists_eq_add_one_of_ne_zero (n := levels') (by omega)
    have deeper := fun input => ih (Nat.le_of_succ_le_succ fits) input
    rw [takeSpec, takeSpec, takePath_limit, takeSuffixes_limit]
    refine Settles.bind (.refl _) fun path => ?_
    dsimp only
    split
    · exact (takeArguments_settles deeper _).bind fun args => .refl _
    · exact .refl _

theorem parse_settles {text : String} (fits : limit ≤ limit') :
    Settles (parse text limit) (parse text limit') :=
  (takeSpec_settles fits _).bind fun _ => .refl _

end Readers

theorem mem_nodesFromAll {node : Nat × QualifiedName} {depth : Nat} {ts : List QualifiedName} :
    node ∈ nodesFromAll depth ts ↔ ∃ t ∈ ts, node ∈ t.nodesFrom depth := by
  induction ts with
  | nil => simp [nodesFromAll]
  | cons t rest ih => simp [nodesFromAll, ih]

/-- The names of a tree that can be stated with so many levels stand on these levels. -/
theorem Readable.node_depth {levels depth : Nat} {t : QualifiedName}
    (readable : Readable levels t) : ∀ node ∈ t.nodesFrom depth, node.1 < depth + levels := by
  induction levels generalizing depth t with
  | zero => exact readable.elim
  | succ levels ih =>
    have shaped : Shaped (Readable levels) t := readable
    intro node member
    rw [nodesFrom_eq, List.mem_append, List.mem_singleton, mem_nodesFromAll] at member
    obtain rfl | ⟨arg, listed, inside⟩ := member
    · exact Nat.lt_add_of_pos_right (Nat.succ_pos levels)
    · have := ih (shaped.args arg listed) node inside
      omega

namespace Resolver
variable {r : Resolver} {t : QualifiedName}

/-- Resolution with another answer for the names beyond the limit. -/
def resolveElse (r : Resolver) (beyond : QualifiedName → Resolution Metadata.ClosedType) :
    Nat → QualifiedName → Resolution Metadata.ClosedType
  | 0, t => beyond t
  | levels + 1, t =>
    if t.isIndirect then .error (.unsupported t.written)
    else
      ((r.locate t).both (.all (t.args.map (r.resolveElse beyond levels)))).map
        fun ((home, d), args) => applySuffixes t.suffixes (.named home d args)

/-- Beyond the limit a resolver answers that the name is not supported. -/
theorem resolve_eq_resolveElse (limit : Nat) (t : QualifiedName) :
    ({ r with maxDepth := limit } : Resolver).resolve t =
      r.resolveElse (fun t => .error (.unsupported t.written)) limit t := by
  have within (levels : Nat) : ({ r with maxDepth := limit } : Resolver).resolveWithin levels t =
      r.resolveElse (fun t => .error (.unsupported t.written)) levels t := by
    induction levels generalizing t with
    | zero => rfl
    | succ levels ih =>
      rw [resolveElse, resolveWithin, funext ih]
      rfl
  exact within limit

/-- The limit is not reached by a name that can be stated within it: neither the answer beyond it
nor more levels make a difference. -/
theorem resolveElse_readable {levels : Nat} (readable : Readable levels t)
    {beyond beyond' : QualifiedName → Resolution Metadata.ClosedType} {limit limit' : Nat}
    (fits : levels ≤ limit) (fits' : levels ≤ limit') :
    r.resolveElse beyond limit t = r.resolveElse beyond' limit' t := by
  induction levels generalizing t limit limit' with
  | zero => exact readable.elim
  | succ levels ih =>
    obtain ⟨limit, rfl⟩ := Nat.exists_eq_add_one_of_ne_zero (n := limit) (by omega)
    obtain ⟨limit', rfl⟩ := Nat.exists_eq_add_one_of_ne_zero (n := limit') (by omega)
    have shaped : Shaped (Readable levels) t := readable
    have args : t.args.map (r.resolveElse beyond limit) =
        t.args.map (r.resolveElse beyond' limit') :=
      List.map_congr_left fun arg member => ih (shaped.args arg member)
        (Nat.le_of_succ_le_succ fits) (Nat.le_of_succ_le_succ fits')
    rw [resolveElse, resolveElse, args]

end Resolver

/-- What a text comes to within a limit, unless the limit is what ends it, it comes to with every
larger one. A name that was read within a limit stays within it when it is resolved, whatever the
snapshot holds: no name of its tree stands deeper, what would be answered beyond the limit does not
matter, and larger limits resolve it to the same. -/
theorem limits_agree {text : String} {limit larger : Nat} (fits : limit ≤ larger) :
    ((∀ n, parse text limit ≠ .error (.tooDeep n)) → parse text larger = parse text limit) ∧
    ∀ t, parse text limit = .ok t →
      (∀ node ∈ t.nodes, node.1 ≤ limit) ∧
      ∀ r : Resolver,
        (∀ beyond, r.resolveElse beyond limit t = { r with maxDepth := limit }.resolve t) ∧
        { r with maxDepth := larger }.resolve t = { r with maxDepth := limit }.resolve t := by
  refine ⟨fun other => ?_, fun t read => ?_⟩
  · obtain ⟨n, deep⟩ | same := parse_settles fits
    · exact absurd deep (other n)
    · exact same.symm
  · have readable : Readable limit t := readable_of_parse read
    refine ⟨fun node member => ?_, fun r => ⟨fun beyond => ?_, ?_⟩⟩
    · have := readable.node_depth node member
      omega
    · rw [Resolver.resolve_eq_resolveElse]
      exact Resolver.resolveElse_readable readable (Nat.le_refl _) (Nat.le_refl _)
    · rw [Resolver.resolve_eq_resolveElse, Resolver.resolve_eq_resolveElse]
      exact Resolver.resolveElse_readable readable fits (Nat.le_refl _)

/-- Two levels of arguments, the outer one without brackets and the inner one with them. -/
def nestedText : String :=
  "G\x601[H\x601[[X, A]]]"

theorem nestedText_limits : 3 ≤ 5 ∧ (∀ n, parse nestedText 3 ≠ .error (.tooDeep n)) ∧
    ∃ t, parse nestedText 3 = .ok t ∧ parse nestedText 5 = .ok t ∧
      ({ snapshot := .empty, maxDepth := 5 } : Resolver).resolve t =
        ({ snapshot := .empty, maxDepth := 3 } : Resolver).resolve t := by
  obtain ⟨t, read⟩ : ∃ t, parse nestedText 3 = .ok t := ok_of_isSome (by decide +kernel)
  have other : ∀ n, parse nestedText 3 ≠ .error (.tooDeep n) := by simp [read]
  obtain ⟨settled, resolved⟩ := @limits_agree nestedText 3 5 (by decide)
  exact ⟨by decide, other, t, read, (settled other).trans read,
    ((resolved t read).2 { snapshot := .empty }).2⟩

end DebugExpr.QualifiedName
