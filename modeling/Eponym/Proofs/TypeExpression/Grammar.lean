/-
# The grammar of type expressions

Which texts are type expressions, and which descriptors they stand for, said without
regard to how they are read:

    union    := both ('|' both)*
    both     := suffixed ('&' suffixed)*
    suffixed := primary ('[' ']')*
    primary  := '?' suffixed | '(' union ')' | name ('<' union (',' union)* '>')?

White space may stand in front of every sign and every name, and at the end.  At most
256 primaries are nested in one another, and no descriptor that is put together, be it in
arguments that are dropped, is higher than 256.

After `?` the grammar leaves open whose the brackets are: in `?A[]` they may follow `A`
or `?A`.  The grammar therefore has a condition on the primaries that brackets may follow.

* `Expression` : the texts that stand for a descriptor;
* `AnyPrimary` : the condition that leaves all of them;
* `FirmPrimary` : brackets follow no primary that starts with `?`.
-/
import Eponym.TypeExpression.Parser

namespace Eponym.TypeExpression

/-! ## Signs and names -/

/-- The sign, with white space in front or without. -/
def IsSign (sign : Char) (w : List Char) : Prop := skipSpace w = [sign]

/-- The descriptor may be put together: it is not too high. -/
def Fits (d : Descriptor) : Prop := d.height ≤ depthLimit

instance (d : Descriptor) : Decidable (Fits d) :=
  inferInstanceAs (Decidable (d.height ≤ depthLimit))

theorem height_pos (d : Descriptor) : 0 < d.height := by
  cases d <;> rw [Descriptor.height] <;> omega

/-- A run of characters that is a name.  Without its leading separators it has a
character, and does not end in a separator. -/
structure IsName (word : List Char) : Prop where
  start : ∃ c ∈ word.head?, isNameStart c = true
  chars : ∀ c ∈ word, isNameChar c = true
  ne_nil : stripSeparators word ≠ []
  last_ne : (stripSeparators word).getLast? ≠ some separator

/-- The form in which a name is compared with keywords. -/
def keyword (name : List Char) : String := String.ofList (name.map Char.toLower)

/-- What a name without leading separators stands for together with its arguments.  A word
for iterables takes up to two; those of any other name are dropped. -/
inductive Denotes (name : List Char) : List Descriptor → Descriptor → Prop
  | mixed (h : keyword name ∈ iterableKeywords) : Denotes name [] (.iterable (.scalar "mixed"))
  | iterable {value : Descriptor} (h : keyword name ∈ iterableKeywords)
      (hf : Fits (.iterable value)) : Denotes name [value] (.iterable value)
  | keyed {key value : Descriptor} (h : keyword name ∈ iterableKeywords)
      (hf : Fits (.keyed key value)) : Denotes name [key, value] (.keyed key value)
  | null {arguments : List Descriptor} (h : keyword name = "null") : Denotes name arguments .null
  | scalar {arguments : List Descriptor} (h : keyword name ∈ scalarKeywords) :
      Denotes name arguments (.scalar (String.ofList name))
  | named {arguments : List Descriptor} (hi : keyword name ∉ iterableKeywords)
      (hn : keyword name ≠ "null") (hs : keyword name ∉ scalarKeywords) :
      Denotes name arguments (.ofName (String.ofList name))

/-! ## Lists -/

/-- Which texts stand for what. -/
abbrev Language (α : Type) := List Char → α → Prop

/-- Further entries of a list, each after the sign. -/
inductive Further (sign : Char) (L : Language Descriptor) : Language (List Descriptor)
  | nil : Further sign L [] []
  | cons {u w v : List Char} {d : Descriptor} {ds : List Descriptor} (hu : IsSign sign u)
      (hw : L w d) (hv : Further sign L v ds) : Further sign L (u ++ (w ++ v)) (d :: ds)

/-- Entries with the sign between them, joined to one descriptor if there are several. -/
inductive Joined (sign : Char) (join : List Descriptor → Descriptor) (L : Language Descriptor) :
    Language Descriptor
  | single {w : List Char} {d : Descriptor} (hw : L w d) : Joined sign join L w d
  | several {w v : List Char} {d e : Descriptor} {ds : List Descriptor} (hw : L w d)
      (hv : Further sign L v (e :: ds)) (hf : Fits (join (d :: e :: ds))) :
      Joined sign join L (w ++ v) (join (d :: e :: ds))

/-! ## Levels -/

/-- Pairs of brackets behind a descriptor, each of which makes an iterable of what stands
in front of it. -/
inductive Brackets : Descriptor → Language Descriptor
  | nil {d : Descriptor} : Brackets d [] d
  | cons {d e : Descriptor} {u v w : List Char} (hu : IsSign '[' u) (hv : IsSign ']' v)
      (hf : Fits (.iterable d)) (hw : Brackets (.iterable d) w e) :
      Brackets d (u ++ (v ++ w)) e

section Levels

variable (Firm : List Char → Prop) (P : Language Descriptor)

/-- A primary and the brackets behind it, if the condition allows that there are any. -/
inductive Suffixed : Language Descriptor
  | intro {w v : List Char} {d e : Descriptor} (hw : P w d) (hv : Brackets d v e)
      (hf : v ≠ [] → Firm w) : Suffixed (w ++ v) e

variable {Firm P} in
theorem Suffixed.of_primary {w : List Char} {d : Descriptor} (hw : P w d) :
    Suffixed Firm P w d := by
  have h : Suffixed Firm P (w ++ []) d := .intro hw .nil fun h => absurd rfl h
  rwa [List.append_nil] at h

/-- Suffixed types joined by `&`. -/
def Both : Language Descriptor := Joined '&' .intersection (Suffixed Firm P)

/-- Intersections joined by `|`. -/
def Union : Language Descriptor := Joined '|' .union (Both Firm P)

/-- The arguments in angle brackets behind a name, if there are any. -/
inductive Arguments : Language (List Descriptor)
  | none : Arguments [] []
  | some {u w v x : List Char} {d : Descriptor} {ds : List Descriptor} (hu : IsSign '<' u)
      (hw : Union Firm P w d) (hv : Further ',' (Union Firm P) v ds) (hx : IsSign '>' x) :
      Arguments (u ++ (w ++ (v ++ x))) (d :: ds)

/-- A primary whose parts are built on the given primaries. -/
inductive PrimaryOver : Language Descriptor
  | optional {u w : List Char} {d : Descriptor} (hu : IsSign '?' u) (hw : Suffixed Firm P w d)
      (hf : Fits (.union [d, .null])) : PrimaryOver (u ++ w) (.union [d, .null])
  | group {u w x : List Char} {d : Descriptor} (hu : IsSign '(' u) (hw : Union Firm P w d)
      (hx : IsSign ')' x) : PrimaryOver (u ++ (w ++ x)) d
  | name {u w : List Char} {d : Descriptor} {ds : List Descriptor} (hu : IsName (skipSpace u))
      (hw : Arguments Firm P w ds) (hd : Denotes (stripSeparators (skipSpace u)) ds d) :
      PrimaryOver (u ++ w) d

end Levels

/-! ## Expressions -/

/-- Primaries with at most the given number nested in one another, the outermost counted. -/
def Primary (Firm : List Char → Prop) : Nat → Language Descriptor
  | 0 => fun _ _ => False
  | n + 1 => PrimaryOver Firm (Primary Firm n)

/-- The texts that stand for a descriptor: a union, with white space behind it or not. -/
def Expression (Firm : List Char → Prop) (s : List Char) (d : Descriptor) : Prop :=
  ∃ w v, s = w ++ v ∧ skipSpace v = [] ∧ Union Firm (Primary Firm depthLimit) w d

/-- Brackets may follow every primary. -/
def AnyPrimary (_ : List Char) : Prop := True

/-- Brackets may follow a primary that does not start with `?`. -/
def FirmPrimary (w : List Char) : Prop := (skipSpace w).head? ≠ some '?'

end Eponym.TypeExpression
