import Bracemark.Phonetic.Transcription

/-!
# X-SAMPA

The rules that turn X-SAMPA, an ASCII spelling of the phonetic alphabet, into
phonetic characters. A sign of several characters comes before the signs that
are its beginnings, or the shorter rule would take its first characters.
-/

namespace Bracemark

namespace Sampa

/-- Marks behind a low line that are taken before any letter, and the tone signs
in angle brackets. -/
def markDiacritics : List Rule :=
  [
    ⟨"_A", "\u0318"⟩, ⟨"_a", "\u033a"⟩, ⟨"_B_L", "\u1dc5"⟩, ⟨"_B", " \u030f"⟩, ⟨"_c", "\u031c"⟩,
    ⟨"_d", "\u032a"⟩, ⟨"_e", "\u0334"⟩, ⟨"<F>", "↘"⟩, ⟨"_F", "\u0302"⟩, ⟨"_G", "ˠ"⟩,
    ⟨"_H_T", "\u1dc4"⟩, ⟨"_H", " \u0301"⟩, ⟨"_h", "ʰ"⟩, ⟨"_j", "ʲ"⟩, ⟨"_k", "\u0330"⟩,
    ⟨"_L", " \u0300"⟩, ⟨"_l", "ˡ"⟩, ⟨"_M", "\u0304"⟩, ⟨"_m", "\u033b"⟩, ⟨"_N", "\u033c"⟩,
    ⟨"_n", "ⁿ"⟩, ⟨"_O", "\u0339"⟩, ⟨"_o", "\u031e"⟩, ⟨"_q", "\u0319"⟩, ⟨"<R>", "↗"⟩,
    ⟨"_R_F", "\u1dc8"⟩, ⟨"_R", "\u030c"⟩, ⟨"_r", "\u031d"⟩, ⟨"_T", "\u030b"⟩, ⟨"_t", "\u0324"⟩,
    ⟨"_v", "\u032c"⟩, ⟨"_w", "ʷ"⟩, ⟨"_X", "\u0306"⟩, ⟨"_x", "\u033d"⟩
  ]

/-- The lower case letters, the longer signs before their beginnings. -/
def lowerLetters : List Rule :=
  [
    ⟨"a", "a"⟩, ⟨"b_<", "ɓ"⟩, ⟨"b", "b"⟩, ⟨"c", "c"⟩, ⟨"d_<", "ɗ"⟩, ⟨"d\x60", "ɖ"⟩, ⟨"d", "d"⟩,
    ⟨"e", "e"⟩, ⟨"f", "f"⟩, ⟨"g_<", "ɠ"⟩, ⟨"g", "ɡ"⟩, ⟨"h\\", "ɦ"⟩, ⟨"h", "h"⟩, ⟨"i", "i"⟩,
    ⟨"j\\", "ʝ"⟩, ⟨"j", "j"⟩, ⟨"k", "k"⟩, ⟨"l\x60", "ɭ"⟩, ⟨"l\\", "ɺ"⟩, ⟨"l", "l"⟩, ⟨"m", "m"⟩,
    ⟨"n\x60", "ɳ"⟩, ⟨"n", "n"⟩, ⟨"o", "o"⟩, ⟨"p\\", "ɸ"⟩, ⟨"p", "p"⟩, ⟨"q", "q"⟩,
    ⟨"r\\\x60", "ɻ"⟩, ⟨"r\\", "ɹ"⟩, ⟨"r\x60", "ɽ"⟩, ⟨"r", "r"⟩, ⟨"s\\", "ɕ"⟩, ⟨"s\x60", "ʂ"⟩,
    ⟨"s", "s"⟩, ⟨"t\x60", "ʈ"⟩, ⟨"t", "t"⟩, ⟨"u", "u"⟩, ⟨"v\\", "ʋ"⟩, ⟨"v", "v"⟩, ⟨"w", "w"⟩,
    ⟨"x\\", "ɧ"⟩, ⟨"x", "x"⟩, ⟨"y", "y"⟩, ⟨"z\\", "ʑ"⟩, ⟨"z\x60", "ʐ"⟩, ⟨"z", "z"⟩
  ]

/-- The upper case letters, the longer signs before their beginnings. -/
def upperLetters : List Rule :=
  [
    ⟨"A", "ɑ"⟩, ⟨"B\\", "ʙ"⟩, ⟨"B", "β"⟩, ⟨"C", "ç"⟩, ⟨"D", "ð"⟩, ⟨"E", "ɛ"⟩, ⟨"F", "ɱ"⟩,
    ⟨"G\\_<", "ʛ"⟩, ⟨"G\\", "ɢ"⟩, ⟨"G", "ɣ"⟩, ⟨"H\\", "ʜ"⟩, ⟨"H", "ɥ"⟩, ⟨"I\\", "ᵻ"⟩,
    ⟨"I", "ɪ"⟩, ⟨"J\\_<", "ʄ"⟩, ⟨"J\\", "ɟ"⟩, ⟨"J", "ɲ"⟩, ⟨"K\\", "ɮ"⟩, ⟨"K", "ɬ"⟩,
    ⟨"L\\", "ʟ"⟩, ⟨"L", "ʎ"⟩, ⟨"M\\", "ɰ"⟩, ⟨"M", "ɯ"⟩, ⟨"N\\", "ɴ"⟩, ⟨"N", "ŋ"⟩, ⟨"O\\", "ʘ"⟩,
    ⟨"O", "ɔ"⟩, ⟨"P", "ʋ"⟩, ⟨"Q", "ɒ"⟩, ⟨"R\\", "ʀ"⟩, ⟨"R", "ʁ"⟩, ⟨"S", "ʃ"⟩, ⟨"T", "θ"⟩,
    ⟨"U\\", "ᵿ"⟩, ⟨"U", "ʊ"⟩, ⟨"V", "ʌ"⟩, ⟨"W", "ʍ"⟩, ⟨"X\\", "ħ"⟩, ⟨"X", "χ"⟩, ⟨"Y", "ʏ"⟩,
    ⟨"Z", "ʒ"⟩
  ]

/-- Marks written with signs, and the syllabic mark. -/
def signDiacritics : List Rule :=
  [
    ⟨"_\"", "\u0308"⟩, ⟨"_+", "\u031f"⟩, ⟨"_-", "\u0320"⟩, ⟨"_/", "\u030c"⟩, ⟨"_0", "\u0325"⟩,
    ⟨"=\\", "ǂ"⟩, ⟨"_=", "\u0329"⟩, ⟨"=", "\u0329"⟩, ⟨"_>", "ʼ"⟩, ⟨"_?\\", "ˤ"⟩,
    ⟨"_\\", "\u0302"⟩, ⟨"_^", "\u032f"⟩, ⟨"_\x7d", "\u031a"⟩, ⟨"\x60", "˞"⟩, ⟨"_~", " \u0303"⟩,
    ⟨"~", " \u0303"⟩
  ]

/-- Digits, stress, length and the remaining signs. -/
def signs : List Rule :=
  [
    ⟨".", "."⟩, ⟨"\"", "ˈ"⟩, ⟨"%", "ˌ"⟩, ⟨"'", "ʲ"⟩, ⟨":\\", "ˑ"⟩, ⟨":", "ː"⟩, ⟨"@\\", "ɘ"⟩,
    ⟨"@\x60", "ɚ"⟩, ⟨"@", "ə"⟩, ⟨"\x7b", "æ"⟩, ⟨"\x7d", "ʉ"⟩, ⟨"1", "ɨ"⟩, ⟨"2", "ø"⟩,
    ⟨"3\\", "ɞ"⟩, ⟨"3", "ɜ"⟩, ⟨"4", "ɾ"⟩, ⟨"5", "ɫ"⟩, ⟨"6", "ɐ"⟩, ⟨"7", "ɤ"⟩, ⟨"8", "ɵ"⟩,
    ⟨"9", "œ"⟩, ⟨"&", "ɶ"⟩, ⟨"?\\", "ʕ"⟩, ⟨"?", "ʔ"⟩, ⟨"<\\", "ʢ"⟩, ⟨">\\", "ʡ"⟩, ⟨"^", "ꜛ"⟩,
    ⟨"!\\", "ǃ"⟩, ⟨"!", "ꜜ"⟩, ⟨"|\\|\\", "ǁ"⟩, ⟨"||", "‖"⟩, ⟨"|\\", "ǀ"⟩, ⟨"|", "|"⟩,
    ⟨"-\\", "‿"⟩
  ]

/-- All rules, in the order in which they are applied. -/
def rules : List Rule :=
  markDiacritics ++ lowerLetters ++ upperLetters ++ signDiacritics ++ signs

def name : String := "x-sampa"

def transcribe (t : Text) : Text := Rule.applyAll rules t

end Sampa

end Bracemark
