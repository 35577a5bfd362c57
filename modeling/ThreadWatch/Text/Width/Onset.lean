import ThreadWatch.Text.Width.Column
import ThreadWatch.Text.Width.Emoji
import ThreadWatch.Text.Width.Joining

/-!
# How a text begins

What is put before a text may run together with its beginning: two letters become one, pictures
joined by zero width joiners one picture, and a selector decides how the character before it is
drawn. `Opening.before` says how many columns a character adds, and how the text begins then.
-/

namespace ThreadWatch

/-- The quotation marks that a selector makes wide. -/
def CharSet.curlyQuotes : CharSet := [(0x2018, 0x2019), (0x201C, 0x201D)]

namespace Width

/-- A letter that the one before it may run together with. -/
inductive Letter where
  | lamed
  | ya
  /-- The Buginese vowel sign before a joiner and ya. -/
  | vowelYa
  | tifinagh
  /-- The Tifinagh joiner before a consonant. -/
  | joinedTifinagh
  | tone
  | orkhon
  | khmer
  deriving DecidableEq, Repr

/-- What a text begins with, as far as it matters to what is put before it. -/
inductive Onset where
  | plain
  /-- A letter, and whether a joiner stands before it. -/
  | letter (letter : Letter) (isJoined : Bool)
  /-- An Arabic alef, or transparent marks before one. -/
  | alef
  /-- The vowel sign e of Kirat Rai, the first part of three longer ones. -/
  | kiratE
  | kiratAi
  | picture
  | skinColour
  | indicator
  /-- Two indicators or more. -/
  | indicators
  /-- A joiner before a picture. -/
  | joinedPicture
  /-- A keycap before such a joiner. -/
  | joinedKeycap
  /-- One indicator before such a joiner, an even number of them, or an odd one above one. -/
  | joinedIndicator
  | joinedFlags
  | joinedOddFlags
  /-- The tags of a regional flag before such a joiner: so many letters, or so many digits before
  letters. -/
  | joinedTags (letters digits : Nat)
  deriving DecidableEq, Repr

/-- How a variation selector has the character before it drawn. -/
inductive Selector where
  | text
  | picture
  | fullwidth
  deriving DecidableEq, Repr

structure Opening where
  onset : Onset
  selector : Option Selector
  deriving DecidableEq, Repr

def Selector.of (c : Char) : Option Selector :=
  match c with
  | '\ufe01' => some .fullwidth
  | '\ufe0e' => some .text
  | '\ufe0f' => some .picture
  | _ => none

namespace Onset

def opening (onset : Onset) : Opening := ⟨onset, none⟩

/-- How a text begins with a character that runs together with nothing after it. -/
def of (c : Char) : Onset :=
  match c.toNat with
  | 0x5DC => letter .lamed false
  | 0x1A10 => letter .ya false
  | 0x10C03 => letter .orkhon false
  | 0x16D67 => kiratE
  | 0x16D68 => kiratAi
  | _ =>
    if CharSet.alefs.has c then alef
    else if CharSet.subscriptable.has c then letter .khmer false
    else if CharSet.tifinagh.has c then letter .tifinagh false
    else if CharSet.secondTones.has c then letter .tone false
    else if CharSet.indicators.has c then indicator
    else if CharSet.skinColours.has c then skinColour
    else if CharSet.pictures.has c then picture
    else plain

/-- Whether letters join across marks and selectors before the beginning. -/
def isScript : Onset → Bool
  | letter _ _ | alef => true
  | _ => false

/-- Whether a selector put before leaves the beginning as it is. -/
def survives (o : Onset) : Selector → Bool
  | .picture => o.isScript || o = joinedPicture || o = joinedKeycap
  | _ => o.isScript

/-- Whether a character has no width and lets Arabic letters join across it. -/
def isTransparent (c : Char) : Bool := columns c = 0 && !CharSet.parting.has c

/-- What a character adds that runs together with the letter after it. -/
def joinLetter? (l : Letter) (isJoined : Bool) (c : Char) : Option (Int × Onset) :=
  if c.toNat = 0x200D then some (0, letter l true)
  else if CharSet.bridged.has c then some (0, letter l isJoined)
  else match l, isJoined, c.toNat with
  | .lamed, true, 0x5D0 => some (0, plain)
  | .ya, true, 0x1A17 => some (0, letter .vowelYa true)
  | .vowelYa, _, 0x1A15 => some (0, plain)
  | .orkhon, true, 0x10C32 => some (0, plain)
  | .khmer, _, 0x17D2 => some (-1, plain)
  | .tone, _, _ => if CharSet.firstTones.has c then some (0, plain) else none
  | .tifinagh, _, 0x2D7F => some (1, letter .joinedTifinagh true)
  | .tifinagh, true, _ => if CharSet.tifinagh.has c then some (0, plain) else none
  | .joinedTifinagh, _, _ => if CharSet.tifinagh.has c then some (-1, plain) else none
  | _, _, _ => none

/-- What a tag adds to a regional flag, and the flag that the tags belong to. -/
def joinTag? (letters digits : Nat) (c : Char) : Option (Int × Onset) :=
  if 0xE0061 ≤ c.toNat && c.toNat ≤ 0xE007A && digits = 0 && letters < 6 then
    some (0, joinedTags (letters + 1) 0)
  else if 0xE0030 ≤ c.toNat && c.toNat ≤ 0xE0039 && digits < 3 && letters < 5 then
    some (0, joinedTags 0 (digits + 1))
  else if c.toNat = 0x1F3F4 && (3 ≤ letters || digits = 3) then some (0, picture)
  else none

/-- What a character adds that runs together with what is after it; it need not make the whole
wider. -/
def join? : Onset → Char → Option (Int × Onset)
  | letter l isJoined, c => joinLetter? l isJoined c
  | alef, c =>
    if CharSet.lams.has c then some (0, plain)
    else if isTransparent c then some (0, alef)
    else none
  | kiratE, c =>
    match c.toNat with
    | 0x16D63 | 0x16D69 => some (0, plain)
    | 0x16D67 => some (0, kiratAi)
    | 0x16D68 => some (1, kiratE)
    | _ => none
  | kiratAi, c => if c.toNat = 0x16D63 then some (0, plain) else none
  | picture, c => if c.toNat = 0x200D then some (0, joinedPicture) else none
  | skinColour, c =>
    if CharSet.colourable.has c then some (0, picture)
    else if c.toNat = 0x200D then some (0, joinedPicture)
    else none
  | indicator, c => if CharSet.indicators.has c then some (1, indicators) else none
  | indicators, c =>
    if CharSet.indicators.has c then some (1, indicators)
    else if c.toNat = 0x200D then some (0, joinedPicture)
    else none
  | joinedPicture, c =>
    if c.toNat = 0x20E3 then some (0, joinedKeycap)
    else if c.toNat = 0xE007F then some (0, joinedTags 0 0)
    else if CharSet.indicators.has c then some (1, joinedIndicator)
    else if CharSet.skinColours.has c then some (0, skinColour)
    else if CharSet.pictures.has c then some (0, picture)
    else none
  | joinedIndicator, c => if CharSet.indicators.has c then some (-1, joinedFlags) else none
  | joinedFlags, c =>
    if CharSet.indicators.has c then some (3, joinedOddFlags)
    else if c.toNat = 0x200D then some (0, joinedPicture)
    else none
  | joinedOddFlags, c =>
    if CharSet.indicators.has c then some (-1, joinedFlags)
    else if c.toNat = 0x200D then some (0, joinedPicture)
    else none
  | joinedTags letters digits, c => joinTag? letters digits c
  | plain, _ | joinedKeycap, _ => none

end Onset

namespace Opening

/-- What a character adds to a text without a selector that asks for a picture. -/
def beforeOnset (onset : Onset) (selector : Option Selector) (c : Char) : Int × Opening :=
  if c.toNat ≤ 0xA0 then (1, Onset.plain.opening)
  else match Selector.of c with
  | some s => (0, ⟨if onset.survives s then onset else .plain, some s⟩)
  | none =>
    if selector = some .text && CharSet.pictorial.has c && CharSet.pictures.has c
        && !CharSet.squaredIdeographs.has c then (1, Onset.plain.opening)
    else if selector = some .fullwidth && CharSet.curlyQuotes.has c then (2, Onset.plain.opening)
    else match onset.join? c with
    | some (added, onset) => (added, onset.opening)
    | none => (columns c, (Onset.of c).opening)

/-- The columns that a character adds, and how the text begins then. -/
def before (o : Opening) (c : Char) : Int × Opening :=
  match o.selector with
  | some .picture =>
    if CharSet.pictorial.has c then
      (if o.onset = .joinedPicture || o.onset = .joinedKeycap then 0 else 2,
        Onset.picture.opening)
    else beforeOnset (if o.onset.isScript then o.onset else .plain) none c
  | selector => beforeOnset o.onset selector c

end Opening

end Width

end ThreadWatch
