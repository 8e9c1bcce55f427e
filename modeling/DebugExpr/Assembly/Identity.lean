import DebugExpr.Assembly.KeyToken
import DebugExpr.Assembly.Version
import DebugExpr.Text.Caseless
import DebugExpr.Text.Split

/-! Assembly identities. A loaded assembly has a full `Identity`; a type name refers to an assembly
by a `Reference`, of which only the simple name is certain. Both are written as display names,
`Name, Version=1.2.3.4, Culture=neutral, PublicKeyToken=null`. -/
namespace DebugExpr.Assembly
open Text

/-- The identity of a loaded assembly. -/
structure Identity where
  name : String
  version : Version
  /-- Absent for a culture-neutral assembly. -/
  culture : Option String
  /-- Absent for an unsigned assembly. -/
  keyToken : Option KeyToken
  deriving DecidableEq, Repr

/-- An assembly as a type name refers to it; an absent component is unstated. -/
structure Reference where
  name : String
  version : Option Version
  culture : Option String
  keyToken : Option KeyToken
  deriving DecidableEq, Repr

/-- How a culture is written; none is the neutral one. -/
def displayCulture (culture : Option String) : String :=
  culture.getD "neutral"

/-- How a key token is written; none is `null`. -/
def displayKeyToken (token : Option KeyToken) : String :=
  (token.map KeyToken.display).getD "null"

/-- The end of every display name: its culture and its key token. -/
def displayEnding (culture : Option String) (token : Option KeyToken) : String :=
  s!", Culture={displayCulture culture}, PublicKeyToken={displayKeyToken token}"

namespace Reference

/-- A reference that states the simple name alone. -/
def named (name : String) : Reference :=
  ⟨name, none, none, none⟩

def display (r : Reference) : String :=
  let version := (r.version.map fun v => s!", Version={v.display}").getD ""
  r.name ++ version ++ displayEnding r.culture r.keyToken

/-- The quoted display names, separated by commas. -/
def displayAll (rs : List Reference) : String :=
  ", ".intercalate (rs.map fun r => s!"'{r.display}'")

/-- A culture name has ASCII letters, digits and hyphens. -/
def isCultureName (cs : List Char) : Bool :=
  !cs.isEmpty && cs.all fun c => c.isAlphanum || c == '-'

/-- A simple name is not empty and holds no bracket and no equals sign. -/
def isSimpleName (cs : List Char) : Bool :=
  !cs.isEmpty && cs.all fun c => c != '[' && c != ']' && c != '='

/-- Takes one `key=value` component into the reference. Keys are read without regard to case,
unknown ones are skipped, and the neutral culture and the null token leave the reference as it is.
-/
def withComponent (r : Reference) (key value : String) : Except Error Reference :=
  match lower key with
  | "version" => do
    let version ← Version.parse value
    return { r with version := some version }
  | "culture" =>
    if !isCultureName value.toList then .error (.badCulture value)
    else if sameCaseless value "neutral" then .ok r
    else .ok { r with culture := some value }
  | "publickeytoken" => do
    if sameCaseless value "null" then return r
    let token ← KeyToken.parse value
    return { r with keyToken := some token }
  | _ => .ok r

/-- Reads the components that follow the simple name. -/
def withComponents (text : String) (r : Reference) : List (List Char) → Except Error Reference
  | [] => .ok r
  | component :: rest =>
    match cutFirst '=' component with
    | none => .error (.badName text)
    | some (key, value) => do
      let r ← r.withComponent (String.ofList (trim key)) (String.ofList (trim value))
      r.withComponents text rest

/-- Reads a display name. -/
def parse (text : String) : Except Error Reference :=
  match (text.toList.splitOn ',').map trim with
  | [] => .error (.badName text)
  | name :: components =>
    if isSimpleName name then (named (String.ofList name)).withComponents text components
    else .error (.badName text)

end Reference

namespace Identity

def display (i : Identity) : String :=
  s!"{i.name}, Version={i.version.display}" ++ displayEnding i.culture i.keyToken

/-- A culture-neutral, unsigned assembly. -/
def simple (name : String) (version : Version) : Identity :=
  ⟨name, version, none, none⟩

/-- Reads a display name; a version that is not stated is the unknown one. -/
def parse (text : String) : Except Error Identity := do
  let r ← Reference.parse text
  return ⟨r.name, r.version.getD .unknown, r.culture, r.keyToken⟩

/-- The reference that states every component. -/
def toReference (i : Identity) : Reference :=
  ⟨i.name, some i.version, i.culture, i.keyToken⟩

end Identity

/-- How a reference is matched against loaded assemblies. -/
inductive Matching where
  /-- By simple name alone, so that another version than the recorded one may be bound. -/
  | nameOnly
  /-- By every component that the reference states, and by the culture always. -/
  | exact
  deriving DecidableEq, Repr, Inhabited

/-- Every stated component equals the identity's; an unstated culture is the neutral one. -/
def Reference.matchesExactly (r : Reference) (i : Identity) : Bool :=
  sameCaseless r.name i.name
    && r.version.all (· == i.version)
    && r.culture == i.culture
    && r.keyToken.all (fun token => some token == i.keyToken)

/-- The loaded assembly satisfies the reference. -/
def Matching.accepts (m : Matching) (r : Reference) (i : Identity) : Bool :=
  match m with
  | .nameOnly => sameCaseless r.name i.name
  | .exact => r.matchesExactly i

/-- A rule that says which loaded assemblies satisfy a reference. A host may bring one of its own. -/
structure Policy where
  accepts : Reference → Identity → Bool

namespace Policy

/-- The rule of a setting. -/
def ofMatching (m : Matching) : Policy :=
  ⟨m.accepts⟩

def nameOnly : Policy :=
  ofMatching .nameOnly

def exact : Policy :=
  ofMatching .exact

end Policy

end DebugExpr.Assembly
