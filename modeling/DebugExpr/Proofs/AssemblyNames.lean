import DebugExpr.Assembly.Identity
import DebugExpr.Proofs.Repetition

/-! Display names of assemblies, read back. A reference that was read has a simple name without
blanks around it and a culture that is not the neutral one, and the display name of any such
reference reads as the reference itself. -/
namespace DebugExpr

namespace Text

theorem hexValue_digitChar : ∀ digit < 16, hexValue? (Nat.digitChar digit) = some digit := by
  decide

theorem toList_hex_two {n : Nat} (byte : n < 256) :
    (hex 2 n).toList = [Nat.digitChar (n / 16), Nat.digitChar (n % 16)] := by
  rw [hex, String.toList_ofList]
  by_cases small : n < 16
  · rw [Nat.toDigits_of_lt_base small, Nat.div_eq_of_lt small, Nat.mod_eq_of_lt small]
    rfl
  · rw [Nat.toDigits_of_base_le (by decide) (by omega), Nat.toDigits_of_lt_base (by omega)]
    rfl

theorem hexBytes_hex (bytes : List UInt8) :
    hexBytes? (bytes.flatMap fun byte => (hex 2 byte.toNat).toList) = some bytes := by
  induction bytes with
  | nil => rfl
  | cons byte bytes ih =>
    have bound : byte.toNat < 256 := byte.toNat_lt
    have high := hexValue_digitChar (byte.toNat / 16) (by omega)
    have low := hexValue_digitChar (byte.toNat % 16) (by omega)
    have whole : byte.toNat / 16 * 16 + byte.toNat % 16 = byte.toNat := by omega
    rw [List.flatMap_cons, toList_hex_two bound]
    simp only [List.cons_append, List.nil_append, hexBytes?, high, low, ih, whole,
      Option.bind_eq_bind, Option.bind_some]
    exact congrArg (fun b => some (b :: bytes)) UInt8.ofNat_toNat

/-- The characters of the values of a display name. -/
def isPlain (c : Char) : Bool :=
  c.isAlphanum || c == '-' || c == '.'

theorem isBlank_of_isPlain {c : Char} (plain : isPlain c = true) : isBlank c = false := by
  have bounds : 45 ≤ c.toNat ∧ c.toNat ≤ 122 := by
    simp only [isPlain, Bool.or_eq_true, beq_iff_eq] at plain
    rcases plain with (plain | rfl) | rfl
    · rcases (Bool.or_eq_true c.isAlpha c.isDigit).mp plain with letter | digit
      · have := toNat_of_isAlpha letter
        omega
      · have := toNat_of_isDigit digit
        omega
    · decide
    · decide
  exact isBlank_of_visible (by omega) (by omega)

theorem plain_ne {c mark : Char} (plain : isPlain c = true) (marks : isPlain mark = false) :
    c ≠ mark := by
  rintro rfl
  rw [plain] at marks
  cases marks

/-- No blank stands at either end. -/
structure Trimmed (cs : List Char) : Prop where
  first : ∀ c ∈ cs.head?, isBlank c = false
  last : ∀ c ∈ cs.getLast?, isBlank c = false

theorem dropBlanks_of_first {cs : List Char} (first : ∀ c ∈ cs.head?, isBlank c = false) :
    dropBlanks cs = cs := by
  cases cs with
  | nil => rfl
  | cons c cs => rw [dropBlanks, List.dropWhile_cons_of_neg (by simp [first c rfl])]

theorem head_dropBlanks (cs : List Char) : ∀ c ∈ (dropBlanks cs).head?, isBlank c = false := by
  intro c head
  obtain ⟨rest, same⟩ := List.head?_eq_some_iff.mp (Option.mem_def.mp head)
  exact isBlank_head_dropBlanks same

theorem trim_of_trimmed {cs : List Char} (trimmed : Trimmed cs) : trim cs = cs := by
  have last : ∀ c ∈ cs.reverse.head?, isBlank c = false := by
    rw [List.head?_reverse]
    exact trimmed.last
  rw [trim, dropBlanks_of_first trimmed.first, dropBlanks_of_first last, List.reverse_reverse]

theorem trimmed_trim (cs : List Char) : Trimmed (trim cs) := by
  constructor
  · intro c head
    have suffix := List.dropWhile_suffix isBlank (l := (dropBlanks cs).reverse)
    obtain ⟨dropped, split⟩ := suffix
    have whole : dropBlanks cs = trim cs ++ dropped.reverse := by
      rw [trim, ← List.reverse_append]
      exact List.reverse_eq_iff.mp split.symm |>.trans (by rfl)
    apply head_dropBlanks cs
    rw [whole, List.head?_append, Option.mem_def.mp head]
    rfl
  · rw [trim, List.getLast?_reverse]
    exact head_dropBlanks _

theorem mem_of_mem_trim {c : Char} {cs : List Char} (member : c ∈ trim cs) : c ∈ cs := by
  have inner := (List.dropWhile_sublist isBlank).subset (List.mem_reverse.mp member)
  exact (List.dropWhile_sublist isBlank).subset (List.mem_reverse.mp inner)

theorem trimmed_of_plain {cs : List Char} (plain : ∀ c ∈ cs, isPlain c = true) : Trimmed cs :=
  ⟨fun c head => isBlank_of_isPlain (plain c (List.mem_of_mem_head? head)),
    fun c last => isBlank_of_isPlain (plain c (List.mem_of_mem_getLast? last))⟩

/-- Two parts that are trimmed and not empty, and whatever stands between them. -/
theorem Trimmed.join {front back : List Char} (trimmed : Trimmed front) (ends : Trimmed back)
    (someFront : front ≠ []) (someBack : back ≠ []) (middle : List Char) :
    Trimmed (front ++ middle ++ back) := by
  constructor
  · intro c head
    cases front with
    | nil => exact absurd rfl someFront
    | cons d front => exact trimmed.first c head
  · intro c last
    obtain ⟨start, d, rfl⟩ := (List.eq_nil_or_concat back).resolve_left someBack
    apply ends.last c
    rw [List.getLast?_append] at last
    simpa using last

theorem trim_space (cs : List Char) : trim (' ' :: cs) = trim cs :=
  rfl

theorem cutFirst_append {sep : Char} {before after : List Char} (free : sep ∉ before) :
    cutFirst sep (before ++ sep :: after) = some (before, after) := by
  have other : ∀ c ∈ before, (c != sep) = true := by
    intro c member
    exact bne_iff_ne.mpr fun same => free (same ▸ member)
  rw [cutFirst, List.dropWhile_append_of_pos other, List.takeWhile_append_of_pos other]
  simp

theorem not_mem_of_mem_splitOn {sep : Char} {cs part : List Char}
    (member : part ∈ cs.splitOn sep) : sep ∉ part := by
  induction cs generalizing part with
  | nil =>
    rw [List.splitOn_nil, List.mem_singleton] at member
    simp [member]
  | cons c cs ih =>
    rw [List.splitOn_cons_eq_if_modifyHead] at member
    split at member
    · rcases List.mem_cons.mp member with rfl | later
      · exact List.not_mem_nil
      · exact ih later
    · rename_i other
      cases parts : cs.splitOn sep with
      | nil => simp [parts] at member
      | cons first later =>
        rw [parts, List.modifyHead_cons] at member
        rw [parts] at ih
        rcases List.mem_cons.mp member with rfl | member
        · intro inside
          rcases List.mem_cons.mp inside with rfl | inside
          · exact other (beq_self_eq_true _)
          · exact ih (by simp) inside
        · exact ih (by simp [member])

end Text

namespace Assembly
open Text Parsing

namespace Version

theorem part_toDigits (part : UInt16) : part? (Nat.toDigits 10 part.toNat) = some part := by
  simp only [part?, decimal_toDigits, Option.bind_eq_bind, Option.bind_some,
    if_pos part.toNat_lt]
  exact congrArg some UInt16.ofNat_toNat

theorem toList_display (v : Version) : v.display.toList =
    ['.'].intercalate (v.parts.map fun part => Nat.toDigits 10 part.toNat) := by
  have written (part : UInt16) : (toString part).toList = Nat.toDigits 10 part.toNat :=
    Nat.toList_repr
  have point : (toString ".").toList = ['.'] := rfl
  simp [display, parts, String.toList_append, List.intercalate, written, point]

theorem plain_of_digit {c : Char} {n : Nat} (member : c ∈ Nat.toDigits 10 n) :
    isPlain c = true := by
  have digit := Nat.isDigit_of_mem_toDigits (by decide) (by decide) member
  simp [isPlain, Char.isAlphanum, digit]

theorem plain_display (v : Version) : ∀ c ∈ v.display.toList, isPlain c = true := by
  have point : isPlain '.' = true := by decide
  intro c member
  rw [toList_display] at member
  simp only [parts, List.map_cons, List.map_nil, List.intercalate, List.intersperse,
    List.flatten_cons, List.flatten_nil, List.mem_append, List.mem_singleton,
    List.not_mem_nil, or_false] at member
  rcases member with digit | rfl | digit | rfl | digit | rfl | digit
  case inl | inr.inr.inl | inr.inr.inr.inr.inl | inr.inr.inr.inr.inr.inr =>
    exact plain_of_digit digit
  all_goals exact point

theorem parse_display (v : Version) : parse v.display = .ok v := by
  have whole : trim v.display.toList = v.display.toList :=
    trim_of_trimmed (trimmed_of_plain v.plain_display)
  have separate : ∀ digits ∈ v.parts.map fun part => Nat.toDigits 10 part.toNat,
      '.' ∉ digits := by
    intro digits member inside
    obtain ⟨part, -, rfl⟩ := List.mem_map.mp member
    have := Nat.isDigit_of_mem_toDigits (by decide) (by decide) inside
    exact absurd this (by decide)
  have split : v.display.toList.splitOn '.' =
      v.parts.map fun part => Nat.toDigits 10 part.toNat := by
    rw [toList_display, List.splitOn_intercalate '.' separate (by simp [parts])]
  simp only [parse, whole, split, parts, List.map_cons, List.map_nil, List.mapM_cons,
    List.mapM_nil, part_toDigits, Option.bind_eq_bind, Option.bind_some, Option.pure_def,
    ofParts?]

end Version

namespace KeyToken

theorem toList_display (token : KeyToken) : token.display.toList =
    token.bytes.flatMap fun byte => (hex 2 byte.toNat).toList := by
  rw [display, String.toList_join, List.flatMap_map]

theorem length_hex (bytes : List UInt8) :
    (bytes.flatMap fun byte => (hex 2 byte.toNat).toList).length = 2 * bytes.length := by
  induction bytes with
  | nil => rfl
  | cons byte bytes ih =>
    rw [List.flatMap_cons, List.length_append, ih, toList_hex_two byte.toNat_lt]
    simp only [List.length_cons, List.length_nil]
    omega

theorem length_display (token : KeyToken) : token.display.toList.length = 16 := by
  rw [toList_display, length_hex, token.length_eq]

/-- A token is longer than the word for none. -/
theorem not_null (token : KeyToken) : sameCaseless token.display "null" = false := by
  rw [Bool.eq_false_iff]
  intro same
  have equal := congrArg (·.toList.length) ((sameCaseless_iff _ _).mp same)
  simp [lower, token.length_display] at equal

theorem plain_display (token : KeyToken) : ∀ c ∈ token.display.toList, isPlain c = true := by
  have plain : ∀ digit < 16, isPlain (Nat.digitChar digit) = true := by decide
  intro c member
  rw [toList_display] at member
  obtain ⟨byte, -, digit⟩ := List.mem_flatMap.mp member
  have bound : byte.toNat < 256 := byte.toNat_lt
  rw [toList_hex_two bound] at digit
  simp only [List.mem_cons, List.not_mem_nil, or_false] at digit
  rcases digit with rfl | rfl
  · exact plain _ (by omega)
  · exact plain _ (by omega)

theorem parse_display (token : KeyToken) : parse token.display = .ok token := by
  have whole : trim token.display.toList = token.display.toList :=
    trim_of_trimmed (trimmed_of_plain token.plain_display)
  have read : hexBytes? token.display.toList = some token.bytes := by
    rw [toList_display, hexBytes_hex]
  simp only [parse, whole, read, Option.bind_eq_bind, Option.bind_some, ofBytes?,
    dif_pos token.length_eq]

end KeyToken

namespace Reference
/-- The references that a display name can state. -/
structure Readable (r : Reference) : Prop where
  simple : isSimpleName r.name.toList = true
  whole : ',' ∉ r.name.toList
  trimmed : Trimmed r.name.toList
  culture : ∀ c ∈ r.culture, isCultureName c.toList = true ∧ sameCaseless c "neutral" = false

/-- The keys and the values that follow the simple name. -/
def components (r : Reference) : List (String × String) :=
  (r.version.map fun v => ("Version", v.display)).toList ++
    [("Culture", displayCulture r.culture), ("PublicKeyToken", displayKeyToken r.keyToken)]

/-- A component of a display name without the blank before it. -/
def componentText (component : String × String) : List Char :=
  component.1.toList ++ '=' :: component.2.toList

theorem toList_display (r : Reference) : r.display.toList =
    [','].intercalate (r.name.toList :: r.components.map fun c => ' ' :: componentText c) := by
  have text (s : String) : toString s = s := rfl
  rcases r with ⟨name, version, culture, keyToken⟩
  cases version with
  | none =>
    simp [display, displayEnding, components, componentText, List.intercalate,
      String.toList_append, text]
  | some v =>
    simp [display, displayEnding, components, componentText, List.intercalate,
      String.toList_append, text]

theorem plain_culture {r : Reference} (readable : r.Readable) :
    ∀ c ∈ (displayCulture r.culture).toList, isPlain c = true := by
  unfold displayCulture
  cases stated : r.culture with
  | none => exact List.all_eq_true.mp (by decide)
  | some culture =>
    intro c member
    have valid := (readable.culture culture stated).1
    simp only [isCultureName, Bool.and_eq_true, List.all_eq_true] at valid
    rw [isPlain, valid.2 c member]
    rfl

theorem plain_keyToken (r : Reference) :
    ∀ c ∈ (displayKeyToken r.keyToken).toList, isPlain c = true := by
  unfold displayKeyToken
  cases r.keyToken with
  | none => exact List.all_eq_true.mp (by decide)
  | some token => exact token.plain_display

theorem plain_component {r : Reference} (readable : r.Readable) {component : String × String}
    (member : component ∈ r.components) :
    (∀ c ∈ component.1.toList, isPlain c = true) ∧
      ∀ c ∈ component.2.toList, isPlain c = true := by
  have plain : ∀ key ∈ ["Version", "Culture", "PublicKeyToken"],
      key.toList.all isPlain = true := by decide
  have keys : ∀ key ∈ ["Version", "Culture", "PublicKeyToken"],
      ∀ c ∈ key.toList, isPlain c = true :=
    fun key member => List.all_eq_true.mp (plain key member)
  rw [components, List.mem_append] at member
  rcases member with version | member
  · obtain ⟨v, -, rfl⟩ := Option.map_eq_some_iff.mp (Option.mem_toList.mp version)
    exact ⟨keys _ (by simp), v.plain_display⟩
  · simp only [List.mem_cons, List.not_mem_nil, or_false] at member
    rcases member with rfl | rfl
    · exact ⟨keys _ (by simp), plain_culture readable⟩
    · exact ⟨keys _ (by simp), plain_keyToken r⟩

/-- The characters of a component are those of its key and its value and the equals sign. -/
theorem componentText_ne {r : Reference} (readable : r.Readable) {component : String × String}
    (member : component ∈ r.components) {mark : Char} (special : isPlain mark = false)
    (other : mark ≠ '=') : mark ∉ componentText component := by
  obtain ⟨key, value⟩ := plain_component readable member
  intro inside
  rcases List.mem_append.mp inside with inside | inside
  · exact plain_ne (key mark inside) special rfl
  · rcases List.mem_cons.mp inside with rfl | inside
    · exact other rfl
    · exact plain_ne (value mark inside) special rfl

theorem componentText_trimmed {r : Reference} (readable : r.Readable)
    {component : String × String} (member : component ∈ r.components) :
    Trimmed (componentText component) := by
  have all : ∀ c ∈ componentText component, isBlank c = false := by
    obtain ⟨key, value⟩ := plain_component readable member
    intro c inside
    rcases List.mem_append.mp inside with inside | inside
    · exact isBlank_of_isPlain (key c inside)
    · rcases List.mem_cons.mp inside with rfl | inside
      · decide
      · exact isBlank_of_isPlain (value c inside)
  exact ⟨fun c head => all c (List.mem_of_mem_head? head),
    fun c last => all c (List.mem_of_mem_getLast? last)⟩

theorem split_display {r : Reference} (readable : r.Readable) :
    (r.display.toList.splitOn ',').map trim =
      r.name.toList :: r.components.map componentText := by
  have separate : ∀ part ∈ r.name.toList :: r.components.map (fun c => ' ' :: componentText c),
      ',' ∉ part := by
    intro part member
    rcases List.mem_cons.mp member with rfl | member
    · exact readable.whole
    · obtain ⟨component, listed, rfl⟩ := List.mem_map.mp member
      intro inside
      rcases List.mem_cons.mp inside with blank | inside
      · exact absurd blank (by decide)
      · exact componentText_ne readable listed (by decide) (by decide) inside
  rw [toList_display, List.splitOn_intercalate ',' separate (by simp), List.map_cons,
    trim_of_trimmed readable.trimmed, List.map_map]
  congr 1
  apply List.map_congr_left
  intro component member
  change trim (' ' :: componentText component) = _
  rw [trim_space, trim_of_trimmed (componentText_trimmed readable member)]

theorem withComponents_text {r : Reference} (readable : r.Readable) (text : String)
    {listed : List (String × String)} (among : ∀ c ∈ listed, c ∈ r.components)
    (start : Reference) :
    start.withComponents text (listed.map componentText) =
      listed.foldlM (fun reference c => reference.withComponent c.1 c.2) start := by
  induction listed generalizing start with
  | nil => rfl
  | cons component listed ih =>
    have member := among component (by simp)
    obtain ⟨key, value⟩ := plain_component readable member
    have free : '=' ∉ component.1.toList := fun inside =>
      plain_ne (key _ inside) (by decide) rfl
    rw [List.map_cons, withComponents, componentText, cutFirst_append free]
    simp only [trim_of_trimmed (trimmed_of_plain key), trim_of_trimmed (trimmed_of_plain value),
      String.ofList_toList, List.foldlM_cons]
    congr 1
    funext next
    exact ih (fun c inside => among c (by simp [inside])) next

theorem withComponent_version (r : Reference) (v : Version) :
    r.withComponent "Version" v.display = .ok { r with version := some v } := by
  have key : lower "Version" = "version" := by decide
  simp [withComponent, key, v.parse_display]

theorem withComponent_culture {r : Reference} {culture : Option String}
    (valid : ∀ c ∈ culture, isCultureName c.toList = true ∧ sameCaseless c "neutral" = false)
    (absent : r.culture = none) :
    r.withComponent "Culture" (displayCulture culture) = .ok { r with culture } := by
  have key : lower "Culture" = "culture" := by decide
  cases culture with
  | none =>
    have named : isCultureName (displayCulture none).toList = true := by decide
    have neutral : sameCaseless (displayCulture none) "neutral" = true := by decide
    cases r
    cases absent
    simp only [withComponent, key, named, neutral, Bool.not_true, Bool.false_eq_true, if_false,
      if_true]
  | some culture =>
    obtain ⟨named, stated⟩ := valid culture rfl
    simp [withComponent, key, displayCulture, named, stated]

theorem withComponent_keyToken {r : Reference} {keyToken : Option KeyToken}
    (absent : r.keyToken = none) :
    r.withComponent "PublicKeyToken" (displayKeyToken keyToken) = .ok { r with keyToken } := by
  have key : lower "PublicKeyToken" = "publickeytoken" := by decide
  cases keyToken with
  | none =>
    cases r
    cases absent
    simp [withComponent, key, displayKeyToken, pure, Except.pure]
  | some token =>
    simp [withComponent, key, displayKeyToken, token.not_null, token.parse_display]

theorem withComponents_stated {r : Reference} (readable : r.Readable) :
    r.components.foldlM (fun reference c => reference.withComponent c.1 c.2) (named r.name) =
      .ok r := by
  rcases r with ⟨name, version, culture, keyToken⟩
  have culture (start : Reference) (absent : start.culture = none) :=
    withComponent_culture readable.culture absent
  cases version with
  | none =>
    simp [components, named, culture, withComponent_keyToken]
  | some v =>
    simp [components, named, culture, withComponent_keyToken, withComponent_version]

theorem parse_display {r : Reference} (readable : r.Readable) : parse r.display = .ok r := by
  rw [parse, split_display readable]
  simp only [readable.simple, if_true, String.ofList_toList]
  rw [withComponents_text readable _ fun c member => member, withComponents_stated readable]

theorem withComponent_readable {r next : Reference} {key value : String}
    (readable : r.Readable) (taken : r.withComponent key value = .ok next) : next.Readable := by
  unfold withComponent at taken
  split at taken
  · simp only [bind_eq_ok, pure_eq_ok] at taken
    obtain ⟨version, -, rfl⟩ := taken
    exact { readable with }
  · split at taken
    · cases taken
    · rename_i named
      split at taken
      · cases taken
        exact readable
      · rename_i stated
        cases taken
        refine { readable with culture := ?_ }
        rintro culture ⟨⟩
        exact ⟨by simpa using named, by simpa using stated⟩
  · split at taken
    · cases taken
      exact readable
    · simp only [bind_eq_ok, pure_eq_ok] at taken
      obtain ⟨token, -, rfl⟩ := taken
      exact { readable with }
  · cases taken
    exact readable

theorem withComponents_readable {text : String} {listed : List (List Char)}
    {r result : Reference} (readable : r.Readable)
    (taken : r.withComponents text listed = .ok result) : result.Readable := by
  induction listed generalizing r with
  | nil =>
    cases taken
    exact readable
  | cons component listed ih =>
    rw [withComponents] at taken
    split at taken
    · cases taken
    · obtain ⟨next, step, rest⟩ := bind_eq_ok.mp taken
      exact ih (withComponent_readable readable step) rest

theorem readable_of_parse {text : String} {r : Reference} (read : parse text = .ok r) :
    r.Readable := by
  unfold parse at read
  split at read
  · cases read
  · rename_i name components parts
    split at read
    · rename_i simple
      obtain ⟨part, member, rfl⟩ := List.mem_map.mp (parts ▸ List.mem_cons_self :
        name ∈ (text.toList.splitOn ',').map trim)
      refine withComponents_readable ⟨?_, ?_, ?_, by rintro c ⟨⟩⟩ read
      · simpa [named] using simple
      · rw [named, String.toList_ofList]
        exact fun inside => not_mem_of_mem_splitOn member (mem_of_mem_trim inside)
      · rw [named, String.toList_ofList]
        exact trimmed_trim part
    · cases read

/-- The display name can stand in brackets. -/
theorem display_unbracketed {r : Reference} (readable : r.Readable) :
    ']' ∉ r.display.toList := by
  have name : ']' ∉ r.name.toList := by
    have simple := readable.simple
    simp only [isSimpleName, Bool.and_eq_true, List.all_eq_true] at simple
    intro inside
    exact absurd (simple.2 _ inside) (by decide)
  rw [toList_display, intercalate_singleton]
  intro inside
  rcases List.mem_append.mp inside with inside | inside
  · exact name inside
  · obtain ⟨part, member, inside⟩ := List.mem_flatMap.mp inside
    obtain ⟨component, listed, rfl⟩ := List.mem_map.mp member
    simp only [List.mem_cons] at inside
    rcases inside with comma | blank | inside
    · exact absurd comma (by decide)
    · exact absurd blank (by decide)
    · exact componentText_ne readable listed (by decide) (by decide) inside

theorem display_trimmed {r : Reference} (readable : r.Readable) : Trimmed r.display.toList := by
  have named : r.name.toList ≠ [] := by
    have simple := readable.simple
    simp only [isSimpleName, Bool.and_eq_true, Bool.not_eq_true', List.isEmpty_eq_false_iff]
      at simple
    exact simple.1
  have signed : (displayKeyToken r.keyToken).toList ≠ [] := by
    cases r.keyToken with
    | none => decide
    | some token =>
      intro empty
      have := token.length_display
      rw [displayKeyToken, Option.map_some, Option.getD_some] at empty
      simp [empty] at this
  have ends : ∃ middle : List Char,
      r.display.toList = r.name.toList ++ middle ++ (displayKeyToken r.keyToken).toList := by
    refine ⟨((r.version.map fun v => s!", Version={v.display}").getD "" ++
      s!", Culture={displayCulture r.culture}, PublicKeyToken=").toList, ?_⟩
    have text (s : String) : toString s = s := rfl
    simp only [display, displayEnding, String.toList_append, List.append_assoc, text]
  obtain ⟨middle, split⟩ := ends
  rw [split]
  exact readable.trimmed.join (trimmed_of_plain (plain_keyToken r)) named signed middle

end Reference

namespace Identity

theorem display_toReference (i : Identity) : i.toReference.display = i.display := by
  have text (s : String) : toString s = s := rfl
  simp [Reference.display, display, toReference, text, String.append_assoc]

theorem readable_of_parse {text : String} {i : Identity} (read : parse text = .ok i) :
    i.toReference.Readable := by
  obtain ⟨r, states, same⟩ := bind_eq_ok.mp read
  obtain rfl := pure_eq_ok.mp same
  exact { Reference.readable_of_parse states with }

theorem parse_display {i : Identity} (readable : i.toReference.Readable) :
    parse i.display = .ok i := by
  rw [parse, ← display_toReference, Reference.parse_display readable]
  rfl

end Identity

/-- A display name, however it is spaced and whatever components it repeats or leaves out, states a
reference and an identity of which the display is a display name as well. -/
theorem display_reads (text : String) :
    (∀ r, Reference.parse text = .ok r → Reference.parse r.display = .ok r) ∧
    ∀ i, Identity.parse text = .ok i →
      Reference.parse i.display = .ok i.toReference ∧ Identity.parse i.display = .ok i := by
  refine ⟨fun r read => Reference.parse_display (Reference.readable_of_parse read), ?_⟩
  intro i read
  have readable := Identity.readable_of_parse read
  refine ⟨?_, Identity.parse_display readable⟩
  rw [← i.display_toReference]
  exact Reference.parse_display readable

/-- The core library, with blanks, an unknown component, and a culture that is stated twice. -/
def spacedName : String :=
  " mscorlib ,VERSION = 4.0, Retargetable=Yes,Culture=en-US , culture=Neutral," ++
    "PublicKeyToken= B77A5C561934E089 "

theorem spacedName_reads :
    (∃ r, Reference.parse spacedName = .ok r ∧ Reference.parse r.display = .ok r) ∧
    ∃ i, Identity.parse spacedName = .ok i ∧
      i.display = "mscorlib, Version=4.0.0.0, Culture=en-US, PublicKeyToken=b77a5c561934e089" ∧
      Reference.parse i.display = .ok i.toReference ∧ Identity.parse i.display = .ok i := by
  obtain ⟨ofReference, ofIdentity⟩ := display_reads spacedName
  obtain ⟨r, read⟩ := ok_of_isSome (x := Reference.parse spacedName) (by decide +kernel)
  obtain ⟨i, states, shown⟩ := exists_ok_of_any (x := Identity.parse spacedName)
    (p := fun i => i.display =
      "mscorlib, Version=4.0.0.0, Culture=en-US, PublicKeyToken=b77a5c561934e089")
    (by decide +kernel)
  exact ⟨⟨r, read, ofReference r read⟩, i, states, shown, ofIdentity i states⟩

end Assembly

end DebugExpr
