/-
Roles of characters where text breaks.

Rules for the breaks between the units a reader sees, between words and between
sentences give each character a role. `grapheme`, `word` and `sentence` list the
characters of each role by the names of the role, in lower case and without
separators.
-/
import Coupling.Text.Property
import Coupling.Text.Script

namespace Coupling.Text.Segmentation

open Category (unionOf)

/-- The characters of the scripts of the given names. -/
def scripts (names : List String) : CharSet :=
  unionOf ((Script.named.filter fun e => names.any e.1.contains).map (·.2))

/-! ## Units -/

/-- Tags, which attach to the character before though they are format characters. -/
def tags : CharSet := .ofText "e0020-e007f"

def control : CharSet :=
  (unionOf [Category.Zl, Category.Zp, Category.Cc, Category.Cf,
    Category.Cn.inter Property.defaultIgnorable]).diff
    (unionOf [.ofText "a d 200c-200d", tags, Property.prependedConcatenationMark])

def graphemeExtend : CharSet := Property.graphemeExtend.union Property.emojiModifier

def spacingMark : CharSet :=
  (Category.Mc.union (.ofText "e33 eb3")).diff
    (Property.graphemeExtend.union (.ofText
      "102b-102c 1038 1062-1064 1067-106d 1083 1087-108c 108f 109a-109c 1a61 1a63-1a64 aa7b aa7d
      11720-11721"))

/-- Syllables without a final consonant. -/
def openSyllable : CharSet := .ofText "ac00-d788/1c"

def grapheme : List (List String × CharSet) :=
  [(["cn", "control"], control),
   (["cr"], .ofText "d"),
   (["ex", "extend"], graphemeExtend),
   (["l"], .ofText "1100-115f a960-a97c"),
   (["lf"], .ofText "a"),
   (["lv"], openSyllable),
   (["lvt"], CharSet.diff (.ofText "ac00-d7a3") openSyllable),
   (["pp", "prepend"], .ofText
    "600-605 6dd 70f 890-891 8e2 d4e 110bd 110cd 111c2-111c3 113d1 1193f 11941 11a3a 11a84-11a89
    11d46 11f02"),
   (["ri", "regionalindicator"], Property.regionalIndicator),
   (["sm", "spacingmark"], spacingMark),
   (["t"], .ofText "11a8-11ff d7cb-d7fb"),
   (["v"], .ofText "1160-11a7 d7b0-d7c6 16d63 16d67-16d6a"),
   (["zwj"], .ofText "200d")]

/-! ## Words -/

def wordExtend : CharSet :=
  unionOf [Property.graphemeExtend, Category.Mc, Property.emojiModifier]

def katakana : CharSet :=
  (scripts ["katakana"]).union (.ofText "3031-3035 309b-309c 30a0 30fc ff70")

def hebrewLetter : CharSet := (scripts ["hebrew"]).inter Category.Lo

/-- Letters of words between spaces. Scripts written without spaces are left out, and ideographs;
some signs that stand in words are taken in. -/
def wordLetter : CharSet :=
  (Property.alphabetic.union (.ofText
    "2c2-2c5 2d2-2d7 2de-2df 2e5-2eb 2ed 2ef-2ff 55a-55c 55e 58a 5f3 70f a708-a716 a720-a721
    a789-a78a ab5b")).diff
    (unionOf [Property.ideographic, wordExtend, katakana, hebrewLetter,
      scripts ["hiragana", "thai", "lao", "myanmar", "khmer", "taile", "newtailue", "taitham",
        "taiviet", "ahom"]])

def wordNumber : CharSet :=
  unionOf [Category.Nd, .ofText "66b 19da",
    Property.prependedConcatenationMark.diff (.ofText "70f")]

def wordFormat : CharSet :=
  Category.Cf.diff
    (unionOf [Property.prependedConcatenationMark, .ofText "200b-200d", tags])

def word : List (List String × CharSet) :=
  [(["cr"], .ofText "d"),
   (["dq", "doublequote"], .ofText "22"),
   (["ex", "extendnumlet"], Category.Pc.union (.ofText "202f")),
   (["extend"], wordExtend.diff (.ofText "200d")),
   (["fo", "format"], wordFormat),
   (["hl", "hebrewletter"], hebrewLetter),
   (["ka", "katakana"], katakana),
   (["le", "aletter"], wordLetter),
   (["lf"], .ofText "a"),
   (["mb", "midnumlet"], .ofText "2e 2018-2019 2024 fe52 ff07 ff0e"),
   (["ml", "midletter"], .ofText "3a b7 387 55f 5f4 2027 fe13 fe55 ff1a"),
   (["mn", "midnum"], .ofText "2c 3b 37e 589 60c-60d 66c 7f8 2044 fe50 fe54 ff0c ff1b"),
   (["nl", "newline"], .ofText "b-c 85 2028-2029"),
   (["nu", "numeric"], wordNumber),
   (["ri", "regionalindicator"], Property.regionalIndicator),
   (["sq", "singlequote"], .ofText "27"),
   (["wsegspace"], Category.Zs.diff (.ofText "a0 2007 202f")),
   (["zwj"], .ofText "200d")]

/-! ## Sentences -/

def sentenceLower : CharSet := Property.lowercase.diff (.ofText "345 10d0-10fa 10fd-10ff")

def sentenceUpper : CharSet :=
  (Property.uppercase.union Category.Lt).diff (.ofText "1c90-1cba 1cbd-1cbf")

def sentenceExtend : CharSet :=
  unionOf [Property.graphemeExtend, Category.Mc, .ofText "200d"]

/-- Ends of sentences that also stand in abbreviations and numbers. -/
def fullStop : CharSet := .ofText "2e 2024 fe52 ff0e"

def closing : CharSet :=
  (unionOf [Category.Ps, Category.Pe, Category.Pi, Category.Pf, Property.quotationMark, .ofText
    "275b-2760 2e00-2e01 2e06-2e08 2e0b 1f676-1f678"]).diff (.ofText "ff02 ff07")

def sentence : List (List String × CharSet) :=
  [(["at", "aterm"], fullStop),
   (["cl", "close"], closing),
   (["cr"], .ofText "d"),
   (["ex", "extend"], sentenceExtend),
   (["fo", "format"], wordFormat.union (.ofText "70f 200b")),
   (["le", "oletter"],
    (Property.alphabetic.union (.ofText "5f3")).diff
      (unionOf [sentenceLower, sentenceUpper, sentenceExtend])),
   (["lf"], .ofText "a"),
   (["lo", "lower"], sentenceLower),
   (["nu", "numeric"], wordNumber.union (.ofText "66c")),
   (["sc", "scontinue"], .ofText
    "2c-2d 3a-3b 37e 55d 60c-60d 7f8 1802 1808 2013-2014 3001 fe10-fe11 fe13-fe14 fe31-fe32
    fe50-fe51 fe54-fe55 fe58 fe63 ff0c-ff0d ff1a-ff1b ff64"),
   (["se", "sep"], .ofText "85 2028-2029"),
   (["sp"], whiteSpace.diff (.ofText "a d 85 2028-2029")),
   (["st", "sterm"], Property.sentenceTerminal.diff fullStop),
   (["up", "upper"], sentenceUpper)]

end Coupling.Text.Segmentation
