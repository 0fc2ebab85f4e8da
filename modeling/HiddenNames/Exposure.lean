import HiddenNames.Types.View

/-!
Which types and members are within reach. Inside the declaring assembly public and internal types
are; from outside only public ones.
-/

namespace HiddenNames

/-- Whether a visibility reaches everyone in the assembly, or everyone outside of it. -/
def Visibility.isBroad (outside : Bool) : Visibility → Bool
  | .pub => true
  | .internal => !outside
  | _ => false

/-- Whether a type can be named from everywhere in the assembly, or from outside of it. -/
def TypeView.isExposed (v : TypeView) (outside : Bool := false) (exposure : Exposure := .chain) :
    Bool :=
  v.head.visibility.isBroad outside &&
    (exposure = .declared || v.outer.all fun head => head.visibility.isBroad outside)

def TypeView.isRestricted (v : TypeView) (outside : Bool := false)
    (exposure : Exposure := .chain) : Bool :=
  !v.isExposed outside exposure

namespace Member

def isHiddenInSource (m : Member) : Bool :=
  m.visibility = .priv && !m.isSynthesized && !(m.kind = .method && m.special)

def isHiddenOutside (m : Member) : Bool :=
  m.visibility ≠ .pub && !m.isSynthesized && !m.special

/-- Types in the sources show their private members, compiled types all that are not public. -/
def isHidden : Tier → Member → Bool
  | .static => isHiddenInSource
  | .loaded => isHiddenOutside
  | .metadata => isHiddenOutside

end Member

/-- Each text once, by code point. -/
def inOrder (names : List String) : List String :=
  names.eraseDups.mergeSort fun a b => decide (a ≤ b)

def TypeView.hiddenNames (v : TypeView) : List String :=
  inOrder ((v.head.members.filter (Member.isHidden v.tier)).map Member.name)

end HiddenNames
