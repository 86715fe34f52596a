import Peg.Unicode.Property
import Peg.Unicode.Script

/-!
# Boundaries

Three properties tell where in a text the clusters of marks and letters, the words and the sentences
end. Most of their values follow from categories, scripts and other properties by rule. Characters for
which a property says nothing have no value that could be named.
-/

namespace Peg.Unicode.Boundary

def scripts (names : List String) : Ranges := .unions (names.filterMap Script.named?)

def carriageReturn : Ranges := [(0xd, 0xd)]

def lineFeed : Ranges := [(0xa, 0xa)]

def joiner : Ranges := [(0x200d, 0x200d)]

/-! ## Clusters -/

/-- Marks and modifiers that never begin a cluster. -/
def extend : Ranges := .diff (.union Property.graphemeExtend Property.emojiModifier) joiner

/-- Signs that stand before the rest of their cluster: those above numbers and consonants written
before others. -/
def prepended : Ranges :=
  .union Property.prependedConcatenationMark
    (.read ["d4e 111c2-111c3 113d1 1193f 11941 11a3a 11a84-11a89 11d46 11f02"])

def control : Ranges :=
  let controls := Ranges.unions
    [Category.zl, Category.zp, Category.cc, Category.cf,
      .inter Property.defaultIgnorableCodePoint Category.unassigned]
  .diff controls (.unions [carriageReturn, lineFeed, joiner, extend, prepended])

/-- Marks with a width of their own that do not begin a cluster. -/
def spacingMark : Ranges :=
  .diff (.union Category.mc (.read ["e33 eb3"]))
    (.union extend
      (.read
        ["102b-102c 1038 1062-1064 1067-106d 1083 1087-108c 108f 109a-109c 1a61 1a63-1a64 aa7b aa7d",
         "11720-11721"]))

def leadingConsonant : Ranges := .read ["1100-115f a960-a97c"]

def vowel : Ranges := .read ["1160-11a7 d7b0-d7c6 16d63 16d67-16d6a"]

def trailingConsonant : Ranges := .read ["11a8-11ff d7cb-d7fb"]

def openSyllable : Ranges := .read ["ac00-d788/1c"]

def closedSyllable : Ranges := .diff (.read ["ac00-d7a3"]) openSyllable

def clusterValues : List (List String × Ranges) :=
  [(["cr"], carriageReturn),
   (["cn", "control"], control),
   (["ex", "extend"], extend),
   (["l"], leadingConsonant),
   (["lf"], lineFeed),
   (["lv"], openSyllable),
   (["lvt"], closedSyllable),
   (["pp", "prepend"], prepended),
   (["regionalindicator", "ri"], Property.regionalIndicator),
   (["sm", "spacingmark"], spacingMark),
   (["t"], trailingConsonant),
   (["v"], vowel),
   (["zwj"], joiner)]

/-! ## Words -/

/-- Marks and modifiers that belong to the word before them. -/
def wordExtend : Ranges :=
  .diff (.unions [Property.graphemeExtend, Category.mc, Property.emojiModifier]) joiner

/-- Invisible characters that do not matter for words, which the blank of no width is not one of. -/
def format : Ranges :=
  .diff Category.cf (.unions [[(0x200b, 0x200b)], joiner, wordExtend, prepended])

/-- Digits, the signs that are written above numbers and the decimal separator between them. -/
def wordNumeric : Ranges :=
  .unions [Category.nd, .diff Property.prependedConcatenationMark [(0x70f, 0x70f)], [(0x66b, 0x66b)]]

def katakana : Ranges :=
  .union (scripts ["katakana"]) (.read ["3031-3035 309b-309c 30a0 30fc ff70"])

def hebrewLetter : Ranges := .inter (scripts ["hebrew"]) Category.lo

/-- Letters of scripts that are written without a sign between words. -/
def unseparatedLetter : Ranges :=
  .inter Category.letter
    (scripts
      ["thai", "lao", "myanmar", "khmer", "taile", "newtailue", "taitham", "taiviet", "ahom"])

/-- Letters and other characters of which words consist. -/
def wordLetter : Ranges :=
  .diff
    (.union Property.alphabetic
      (.read
        ["2c2-2c5 2d2-2d7 2de-2df 2e5-2eb 2ed 2ef-2ff 55a-55c 55e 58a 5f3 70f a708-a716 a720-a721",
         "a789-a78a ab5b"]))
    (.unions
      [Property.ideographic, katakana, unseparatedLetter, scripts ["hiragana"], wordExtend,
        hebrewLetter])

/-- Characters inside both words and numbers. -/
def betweenLettersOrDigits : Ranges := .read ["2e 2018-2019 2024 fe52 ff07 ff0e"]

def betweenLetters : Ranges := .read ["3a b7 387 55f 5f4 2027 fe13 fe55 ff1a"]

def betweenDigits : Ranges :=
  .read ["2c 3b 37e 589 60c-60d 66c 7f8 2044 fe10 fe14 fe50 fe54 ff0c ff1b"]

def wordValues : List (List String × Ranges) :=
  [(["aletter", "le"], wordLetter),
   (["cr"], carriageReturn),
   (["doublequote", "dq"], [(0x22, 0x22)]),
   (["extend"], wordExtend),
   (["ex", "extendnumlet"], .union Category.pc [(0x202f, 0x202f)]),
   (["fo", "format"], format),
   (["hebrewletter", "hl"], hebrewLetter),
   (["ka", "katakana"], katakana),
   (["lf"], lineFeed),
   (["midletter", "ml"], betweenLetters),
   (["midnum", "mn"], betweenDigits),
   (["mb", "midnumlet"], betweenLettersOrDigits),
   (["newline", "nl"], .read ["b-c 85 2028-2029"]),
   (["nu", "numeric"], wordNumeric),
   (["regionalindicator", "ri"], Property.regionalIndicator),
   (["singlequote", "sq"], [(0x27, 0x27)]),
   (["wsegspace"], .diff Category.zs (.read ["a0 2007 202f"])),
   (["zwj"], joiner)]

/-! ## Sentences -/

def sentenceExtend : Ranges := .unions [Property.graphemeExtend, Category.mc, joiner]

/-- Small letters. Those of Georgian are not capitalised in sentences and do not count. -/
def sentenceLower : Ranges :=
  .diff Property.lowercase (.union Property.graphemeExtend (.read ["10d0-10fa 10fd-10ff"]))

def sentenceUpper : Ranges :=
  .diff (.union Category.lt Property.uppercase) (.read ["1c90-1cba 1cbd-1cbf"])

/-- Letters of no case. -/
def sentenceLetter : Ranges :=
  .diff (.union Property.alphabetic [(0x5f3, 0x5f3)])
    (.unions [sentenceLower, sentenceUpper, sentenceExtend])

/-- Full stops, which need not end a sentence. -/
def fullStop : Ranges := .read ["2e 2024 fe52 ff0e"]

def sentenceEnd : Ranges := .diff Property.sentenceTerminal fullStop

/-- Brackets and quotation marks. -/
def closing : Ranges :=
  .diff
    (.unions
      [Category.ps, Category.pe, Category.pi, Category.pf,
        .read ["22 27 275b-2760 2e00-2e01 2e06-2e08 2e0b 1f676-1f678"]])
    (.union fullStop sentenceEnd)

def sentenceValues : List (List String × Ranges) :=
  [(["at", "aterm"], fullStop),
   (["cl", "close"], closing),
   (["cr"], carriageReturn),
   (["ex", "extend"], sentenceExtend),
   (["fo", "format"], .diff Category.cf (.union sentenceExtend prepended)),
   (["lf"], lineFeed),
   (["lo", "lower"], sentenceLower),
   (["nu", "numeric"], .union wordNumeric [(0x66c, 0x66c)]),
   (["le", "oletter"], sentenceLetter),
   (["sc", "scontinue"],
    .read
      ["2c-2d 3a-3b 37e 55d 60c-60d 7f8 1802 1808 2013-2014 3001 fe10-fe11 fe13-fe14 fe31-fe32",
       "fe50-fe51 fe54-fe55 fe58 fe63 ff0c-ff0d ff1a-ff1b ff64"]),
   (["se", "sep"], .read ["85 2028-2029"]),
   (["sp"], .diff Property.whiteSpace (.read ["a d 85 2028-2029"])),
   (["st", "sterm"], sentenceEnd),
   (["up", "upper"], sentenceUpper)]

def named? (values : List (List String × Ranges)) (name : String) : Option Ranges :=
  (values.find? fun (names, _) => names.contains name).map (·.2)

end Peg.Unicode.Boundary
