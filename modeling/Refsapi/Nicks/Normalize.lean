/-
# Nicks.Normalize -- the normal form of a name

`normalization_str` makes names comparable: letters become small, repeated characters one, and
Russian letters and look-alikes the Latin letters they stand for; only letters and digits are
kept.

The last pass asks `std::isalnum`, which is defined for the values of a narrow character.  What
has neither become a small value nor is in one of the two tables is passed to it as it is
(`classified_le_iff`), and a name with such a character has no normal form
(`normalizationStr_eq`).
-/
import Refsapi.Misc.Text
import Refsapi.Misc.Wide

namespace Refsapi.Nicks

set_option autoImplicit false

/-! ## The tables -/

/-- `SIMILAR_CHARS_MAP` -/
def similarCharsMap : List (Char × Wide) := [
  ('a', ['4', '@', 'а', 'Ⱥ', 'Ǟ', '₳', 'Ꭿ', '凡', 'Ꮨ', '∀', 'Ǻ', 'ǻ', 'α', 'ά', 'Ά', 'ẫ', 'Ắ', 'ắ',
    'Ằ', 'ằ', 'ẳ', 'Ẵ', 'ẵ', 'Ä', 'ª', 'ä', 'Å', 'À', 'Á', 'Â', 'å', 'ã', 'â', 'à', 'á', 'Ã', 'ᗩ',
    'ᵰ', 'а', 'α', 'ⱥ', 'ａ', '𝐚', '𝑎', '𝒂', '𝒶', '𝓪', '𝔞', '𝕒', '𝖆', '𝖺', '𝗮', '𝘢', '𝙖', '𝚊', '𝛂',
    '𝛼', '𝜶', '𝝰', '𝞪', 'а', 'ᗄ']),
  ('b', ['6', 'б', 'ℬ', 'Ᏸ', 'β', '฿', 'ß', 'Ђ', 'ᗷ', 'ᗸ', 'ᗹ', 'ᗽ', 'ᗾ', 'ᗿ', 'Ɓ', 'ƀ', 'ხ', '方',
    'Ҕ', 'ҕ', 'Ϭ', 'ϭ', 'চ', 'ঢ়', 'ƃ', 'ɓ', 'Ѣ', 'ѣ', '৮', 'Ӹ', 'ӹ', 'Ᏸ', 'ｂ', '𝐛', '𝑏', '𝒃', '𝒷',
    '𝓫', '𝔟', '𝕓', '𝖇', '𝖻', '𝗯', '𝘣', '𝙗', '𝚋', 'ᖯ']),
  ('c', ['с', 'ℭ', 'ℂ', 'Ç', 'Ç', 'Č', 'ċ', 'Ċ', 'ĉ', 'ς', 'Ĉ', 'ć', 'Ć', 'č', 'Ḉ', 'ḉ', '⊂', 'Ꮸ',
    '₡', 'Կ', 'կ', '੫', 'Ⴁ', 'Ӵ', 'ӵ', 'Ҹ', 'ҹ', 'ᴄ', 'ｃ', '𝐜', '𝑐', '𝒄', '𝒸', '𝓬', '𝔠', '𝕔', '𝖈',
    '𝖼', '𝗰', '𝘤', '𝙘', '𝚌', 'ⅽ']),
  ('d', ['д', 'ᗫ', 'Ɗ', 'Ď', 'ď', 'Đ', 'đ', 'ð', '∂', '₫', 'ȡ', 'ℊ', '∂', 'ԁ', 'ｄ', '𝐝', '𝑑', '𝒅',
    '𝒹', '𝓭', '𝔡', '𝕕', '𝖉', '𝖽', '𝗱', '𝘥', '𝙙', '𝚍', 'ⅾ']),
  ('e', ['3', 'е', 'ё', 'ℯ', 'ໂ', '६', 'Ē', '℮', 'ē', 'Ė', 'ė', 'Ę', 'ě', 'Ě', 'ę', 'Έ', 'ê', 'ξ',
    'Ê', 'È', 'É', '∑', 'Ế', 'Ề', 'Ể', 'Ễ', 'é', 'è', 'ع', 'Є', 'є', 'έ', 'ε', 'ℰ', 'ℯ', 'ໂ', '६',
    'Ē', '℮', 'ē', 'Ė', 'ė', 'Ę', 'ě', 'Ě', 'ę', 'Έ', 'ê', 'Ê', 'È', 'É', 'Ế', 'Ề', 'Ể', 'Ễ', 'é',
    'è', 'ع', 'Є', 'є', 'έ', 'ε', 'Ҿ', 'ҿ', 'ｅ', '𝐞', '𝑒', '𝒆', '𝓮', '𝔢', '𝕖', '𝖊', '𝖾', '𝗲', '𝘦',
    '𝙚', '𝚎', '𝛆', '𝜀', '𝜺', '𝝴', '𝞊', 'е', 'ё']),
  ('f', ['ф', 'ℱ', '₣', 'ƒ', '∮', 'Ḟ', 'ḟ', 'ჶ', 'ᶂ', 'φ', 'Փ', 'փ', 'Ⴔ', 'ቁ', 'ቂ', 'ቃ', 'ቄ', 'ቅ',
    'ቆ', 'ቇ', 'ቈ', 'ᛄ', 'ꬵ', 'ｆ', '𝐟', '𝑓', '𝒇', '𝒻', '𝓯', '𝔣', '𝕗', '𝖋', '𝖿', '𝗳', '𝘧', '𝙛', '𝚏',
    '𝟋']),
  ('g', ['9', 'г', 'Ꮹ', 'Ꮆ', 'ℊ', 'Ǥ', 'ǥ', 'Ĝ', 'ĝ', 'Ğ', 'ğ', 'Ġ', 'ġ', 'Ģ', 'ģ', 'פ', 'ᶃ', '₲',
    '୮', '┍', 'ℾ', 'ɡ', 'ｇ', '𝐠', '𝑔', '𝒈', '𝓰', '𝔤', '𝕘', '𝖌', '𝗀', '𝗴', '𝘨', '𝙜', '𝚐', 'ℊ']),
  ('h', ['#', 'х', 'н', 'ℍ', 'ℋ', 'ℎ', 'ℌ', 'ℏ', 'ዙ', 'Ꮵ', 'Ĥ', 'Ħ', 'ħ', 'Ή', '♅', '廾', 'Ћ', 'ђ',
    'Ḩ', 'Һ', 'ḩ', '♄', 'ｈ', '𝐡', '𝒉', '𝒽', '𝓱', '𝔥', '𝕙', '𝖍', '𝗁', '𝗵', '𝘩', '𝙝', '𝚑', 'һ',
    'հ']),
  ('i', ['1', '!', 'и', 'й', 'ℐ', 'ℑ', 'ί', 'ι', 'Ï', 'Ί', 'Î', 'ì', 'Ì', 'í', 'Í', 'î', 'ϊ', 'ΐ',
    'Ĩ', 'ĩ', 'Ī', 'ī', 'Ĭ', 'ĭ', 'İ', 'į', 'Į', 'Ꭵ', 'น', 'ự', 'Ӥ', 'ӥ', 'Ũ', 'ũ', 'Ū', 'ū', 'Ŭ',
    'ŭ', 'Ù', 'ú', 'Ú', 'ù', 'Ҋ', 'ҋ', 'ｉ', '𝐢', '𝑖', '𝒊', '𝒾', '𝓲', '𝔦', '𝕚', '𝖎', '𝗂', '𝗶', '𝘪',
    '𝙞', '𝚤', '𝚒', 'і']),
  ('j', ['ж', 'ᛤ', '♅', 'Җ', 'җ', 'Ӝ', 'ӝ', 'Ӂ', 'ӂ', 'ϳ', 'ｊ', '𝐣', '𝑗', '𝒋', '𝒿', '𝓳', '𝔧', '𝕛',
    '𝖏', '𝗃', '𝗷', '𝘫', '𝙟', '𝚓', 'ј']),
  ('k', ['к', '₭', 'Ꮶ', 'Ќ', 'ќ', 'ķ', 'Ķ', 'Ҝ', 'ҝ', 'ﻸ', 'ᶄ', 'ᛕ', '₭', 'Ꮶ', 'Ќ', 'ќ', 'ķ', 'Ķ',
    'Ҝ', 'ҝ', 'ᶄ', 'Ҡ', 'ҡ', 'ｋ', '𝐤', '𝑘', '𝒌', '𝓀', '𝔨', '𝕜', '𝖐', '𝗄', '𝗸', '𝘬', '𝙠', '𝚔',
    'κ']),
  ('l', ['|', 'л', 'ℒ', 'ℓ', 'Ŀ', 'ŀ', 'Ĺ', 'ĺ', 'Ļ', 'ļ', 'λ', 'Ł', 'ł', 'ľ', 'Ľ', 'Ḽ', 'ḽ', 'ȴ',
    'Ꮭ', 'ለ', 'ሉ', 'ሊ', 'ሌ', 'ል', 'ሎ', 'Ꮧ', 'ｌ', '𝐥', '𝑙', '𝒍', '𝓁', '𝔩', '𝕝', '𝖑', '𝗅', '𝗹', '𝘭',
    '𝙡', '𝚕', 'ⅼ']),
  ('m', ['м', 'ℳ', 'ʍ', 'ᶆ', 'Ḿ', 'ḿ', 'ᗰ', 'ᙢ', '爪', 'ጠ', 'ᛖ', 'ℳ', 'ʍ', 'ᶆ', 'Ḿ', 'ｍ', '𝐦', '𝑚',
    '𝒎', '𝓂', '𝔪', '𝕞', '𝖒', '𝗆', '𝗺', '𝘮', '𝙢', '𝚖', 'ⅿ']),
  ('n', ['н', 'ℕ', 'η', 'ñ', 'ח', 'Ñ', 'ή', 'ŋ', 'Ŋ', 'Ń', 'ń', 'Ņ', 'ņ', 'Ň', 'ň', 'ŉ', 'ȵ', 'ℵ',
    'ਮ', 'ዘ', 'ዙ', 'ዚ', 'ዛ', 'ዜ', 'ዝ', 'ዞ', 'ዟ', 'ℍ', 'ℋ', 'ℌ', 'ℏ', 'ዙ', 'Ꮵ', 'Ĥ', 'Ħ', 'Ή', 'Ḩ',
    'Ӈ', 'ӈ', 'ｎ', '𝐧', '𝑛', '𝒏', '𝓃', '𝔫', '𝕟', '𝖓', '𝗇', '𝗻', '𝘯', '𝙣', '𝚗', 'ո']),
  ('o', ['0', 'о', 'ℴ', 'ტ', '٥', 'Ό', 'ó', 'ό', 'σ', 'ǿ', 'Ǿ', 'Θ', 'ò', 'Ó', 'Ò', 'Ô', 'ô', 'Ö',
    'ö', 'Õ', 'õ', 'ờ', 'ớ', 'ọ', 'Ọ', 'ợ', 'Ợ', 'ø', 'Ø', 'Ό', 'Ở', 'Ờ', 'Ớ', 'Ổ', 'ổ', 'Ợ', 'Ō',
    'ō', '০', 'ℴ', 'ტ', '٥', 'Ό', 'ó', 'ό', 'σ', 'ǿ', 'Ǿ', 'Θ', 'ò', 'Ó', 'Ò', 'Ô', 'ô', 'Ö', 'ö',
    'Õ', 'õ', 'ờ', 'ớ', 'ọ', 'Ọ', 'ợ', 'Ợ', 'ø', 'Ø', 'Ό', 'Ở', 'Ờ', 'Ớ', 'Ổ', 'ổ', 'Ợ', 'Ō', 'ō',
    'Ő', 'ő', 'Ӫ', 'ӫ', 'ｏ', '𝐨', '𝑜', '𝒐', '𝓸', '𝔬', '𝕠', '𝖔', '𝗈', '𝗼', '𝘰', '𝙤', '𝚘', '𝛐', '𝜊',
    '𝝄', '𝝾', '𝞸', 'σ']),
  ('p', ['п', 'ℙ', '℘', 'þ', 'Þ', 'ρ', 'Ꭾ', 'Ꮅ', '尸', 'Ҏ', 'ҏ', 'ᶈ', '₱', '☧', 'ᖘ', 'ק', 'ァ', 'Ո',
    'গ', 'ກ', '⋒', 'Ҧ', 'ҧ', 'ｐ', '𝐩', '𝑝', '𝒑', '𝓅', '𝔭', '𝕡', '𝖕', '𝗉', '𝗽', '𝘱', '𝙥', '𝚙',
    'ρ']),
  ('q', ['ц', 'Ա', 'ų', 'զ', 'ｑ', '𝐪', '𝑞', '𝒒', '𝓆', '𝔮', '𝕢', '𝖖', '𝗊', '𝗾', '𝘲', '𝙦', '𝚚',
    'գ']),
  ('r', ['г', 'ℝ', 'ℜ', 'ℛ', '℟', 'ჩ', 'ᖇ', 'ř', 'Ř', 'ŗ', 'Ŗ', 'ŕ', 'Ŕ', 'ᶉ', 'Ꮢ', '尺', 'թ', 'ℙ',
    '℘', 'ρ', 'Ꭾ', 'Ꮅ', '尸', 'Ҏ', 'ҏ', 'ᶈ', '₱', '☧', 'ᖘ', 'ק', '₽', 'Ƿ', 'Ҏ', 'ҏ', 'ｒ', '𝐫', '𝑟',
    '𝒓', '𝓇', '𝔯', '𝕣', '𝖗', '𝗋', '𝗿', '𝘳', '𝙧', '𝚛', 'г']),
  ('s', ['$', 'с', 'Ⴚ', 'ℭ', 'ℂ', 'Ç', 'Ç', 'Č', 'ċ', 'Ċ', 'ĉ', 'ς', 'Ĉ', 'ć', 'Ć', 'č', 'Ḉ', 'ḉ',
    '⊂', 'Ꮸ', '₡', 'Կ', 'կ', '੫', 'Ⴁ', 'Ӵ', 'ӵ', 'Ҹ', 'ҹ', 'ｓ', '𝐬', '𝑠', '𝒔', '𝓈', '𝔰', '𝕤', '𝖘',
    '𝗌', '𝘀', '𝘴', '𝙨', '𝚜', 'ѕ']),
  ('t', ['7', 'т', '₸', '†', 'τ', 'ΐ', 'Ţ', 'ţ', 'Ť', 'ť', 'ŧ', 'Ŧ', 'Ṫ', 'ṫ', 'ナ', 'Ꮏ', 'Ꮖ', 'テ',
    '₮', '⍑', '⍡', 'τ', 'Ţ', 'Ť', 'Ŧ', 'Ṫ', '₮', 'ｔ', '𝐭', '𝑡', '𝒕', '𝓉', '𝕥', '𝖙', '𝗍', '𝘁', '𝘵',
    '𝙩', '𝚝', 'τ']),
  ('u', ['µ', 'и', 'ю', '∪', 'ᙀ', 'Ũ', '⋒', 'Ủ', 'Ừ', 'Ử', 'Ữ', 'Ự', 'ύ', 'ϋ', 'Ù', 'ú', 'Ú', 'ΰ',
    'ù', 'Û', 'û', 'Ü', 'ử', 'ữ', 'ự', 'Џ', 'ü', 'ừ', 'Ũ', 'ũ', 'Ū', 'ū', 'Ŭ', 'ŭ', 'ų', 'Ų', 'ű',
    'Ű', 'ů', 'Ů', 'ɣ', 'Ꭹ', 'Ꮍ', 'Ẏ', 'ẏ', 'ϒ', 'ɤ', '￥', '௶', 'Ⴘ', 'ｕ', '𝐮', '𝑢', '𝒖', '𝓊', '𝔲',
    '𝕦', '𝖚', '𝗎', '𝘂', '𝘶', '𝙪', '𝚞', 'ս']),
  ('v', ['в', '∨', '√', 'Ꮙ', 'Ṽ', 'ṽ', 'ᶌ', '℣', 'ʋ', 'ѵ', 'ｖ', '𝐯', '𝑣', '𝒗', '𝓋', '𝔳', '𝕧', '𝖛',
    '𝗏', '𝘃', '𝘷', '𝙫', '𝚟', 'ⅴ']),
  ('w', ['ш', 'щ', '₩', 'ẃ', 'Ẃ', 'ẁ', 'Ẁ', 'ẅ', 'ώ', 'ω', 'ŵ', 'Ŵ', 'Ꮤ', 'Ꮃ', 'ฬ', 'ᗯ', 'ᙡ', 'Ẅ',
    'ѡ', 'ಎ', 'ಭ', 'Ꮚ', 'Ꮗ', 'ผ', 'ฝ', 'พ', 'ฟ', 'ᗯ', 'ᙡ', 'ω', 'պ', 'ખ', 'ｗ', '𝐰', '𝑤', '𝒘', '𝓌',
    '𝔴', '𝕨', '𝖜', '𝗐', '𝘄', '𝘸', '𝙬', '𝚠', 'ա']),
  ('x', ['+', 'х', 'χ', '×', '᙭', 'ჯ', 'Ẍ', 'ẍ', 'ᶍ', 'ᕁ', 'ｘ', '𝐱', '𝑥', '𝒙', '𝓍', '𝔵', '𝕩', '𝖝',
    '𝗑', '𝘅', '𝘹', '𝙭', '𝚡', 'х']),
  ('y', ['у', 'ɣ', 'Ꭹ', 'Ꮍ', 'Ẏ', 'ẏ', 'ϒ', 'ɤ', '￥', 'り', 'ਠ', 'ყ', 'ｙ', '𝐲', '𝑦', '𝒚', '𝓎', '𝔶',
    '𝕪', '𝖞', '𝗒', '𝘆', '𝘺', '𝙮', '𝚢', 'у']),
  ('z', ['2', 'з', 'ℤ', 'ℨ', 'ჳ', '乙', 'Ẑ', 'ẑ', 'ɀ', 'Ꮓ', 'Յ', 'ℨ', 'ჳ', '∋', '∌', '∍', 'ヨ', 'Ӭ',
    'ӭ', '℈', 'ｚ', '𝐳', '𝑧', '𝒛', '𝓏', '𝔃', '𝕫', '𝖟', '𝗓', '𝘇', '𝘻', '𝙯', '𝚣', 'ᴢ'])]

/-- `RU_TO_LAT_MAP` -/
def ruToLatMap : List (Char × Wide) := [
  ('а', ['a']), ('б', ['b']), ('в', ['v']), ('г', ['g']), ('д', ['d']), ('е', ['e']),
  ('ё', ['y', 'o']), ('ж', ['z', 'h']), ('з', ['z']), ('и', ['i']), ('й', ['j']), ('к', ['k']),
  ('л', ['l']), ('м', ['m']), ('н', ['n']), ('о', ['o']), ('п', ['p']), ('р', ['r']),
  ('с', ['s']), ('т', ['t']), ('у', ['L']), ('ф', ['f']), ('х', ['h']), ('ч', ['c', 'z']),
  ('ш', ['s', 'h']), ('щ', ['s', 'h', 'c']), ('ъ', ['^']), ('ы', ['y']), ('ь', ['\'']),
  ('э', ['e']), ('ю', ['y', 'L']), ('я', ['y', 'a'])]

/-- What the C library does with characters, and the order in which the hash table
`SIMILAR_CHARS_MAP` is gone through.  Each is as documented for ASCII characters; what `isAlnum`
is above 255 is of no consequence (`isalnum`). -/
structure Platform where
  toLower : Char → Char
  isAlnum : Char → Bool
  similar : List (Char × Wide)
  toLower_ascii : ∀ c, c.toNat < 128 → toLower c = c.toLower
  isAlnum_ascii : ∀ c, c.toNat < 128 → isAlnum c = c.isAlphanum
  similar_perm : similar.Perm similarCharsMap

/-! ## The passes -/

/-- The inner loop of `remove_duplicates`, behind a character that has been taken. -/
def skipDuplicates {α : Type} [DecidableEq α] (taken : α) : List α → List α
  | [] => []
  | c :: rest => if c = taken then skipDuplicates taken rest else c :: skipDuplicates c rest

def removeDuplicates {α : Type} [DecidableEq α] : List α → List α
  | [] => []
  | c :: rest => c :: skipDuplicates c rest

def transliterateRuToLat (input : Wide) : Wide :=
  input.flatMap fun c => (ruToLatMap.lookup c).getD [c]

variable (P : Platform)

def findReplacement (symbol : Char) : Option Char :=
  (P.similar.find? fun entry => entry.2.contains symbol).map Prod.fst

def replaceSimilar (input : Wide) : Wide :=
  input.map fun c => (findReplacement P c).getD c

/-- The characters that `normalization_str` passes to `std::isalnum`. -/
def classified (s : Wide) : Wide :=
  let s := s.map P.toLower
  let s := removeDuplicates s
  let s := transliterateRuToLat s
  let s := replaceSimilar P s
  trim s

/-- `std::isalnum`, which is defined for the values of a narrow character. -/
def isalnum (c : Char) : Option Bool := if c.toNat ≤ 255 then some (P.isAlnum c) else none

/-- The erasure of what is not a letter or a digit. -/
def eraseOthers : Wide → Option Wide
  | [] => some []
  | c :: rest => do
      let kept ← isalnum P c
      let rest ← eraseOthers rest
      return if kept then c :: rest else rest

def normalizationStr (s : Wide) : Option Wide := eraseOthers P (classified P s)

/-! ## What is in the tables -/

theorem similar_keys : ∀ entry ∈ similarCharsMap, entry.1.toNat ≤ 255 := by
  have all : (similarCharsMap.all fun entry => entry.1.toNat ≤ 255) = true := by decide
  simpa only [List.all_eq_true, decide_eq_true_eq] using all

theorem ruToLat_values : ∀ entry ∈ ruToLatMap, ∀ c ∈ entry.2, c.toNat ≤ 255 := by
  have all : (ruToLatMap.all fun entry => entry.2.all fun c => c.toNat ≤ 255) = true := by decide
  simpa only [List.all_eq_true, decide_eq_true_eq] using all

theorem mem_of_lookup {α β : Type} [DecidableEq α] {table : List (α × β)} {a : α} {b : β}
    (found : table.lookup a = some b) : (a, b) ∈ table := by
  obtain ⟨before, after, whole, -⟩ := List.lookup_eq_some_iff.1 found
  rw [whole]
  exact List.mem_append_right _ List.mem_cons_self

variable {P} {c : Char}

theorem findReplacement_mem {letter : Char} (found : findReplacement P c = some letter) :
    ∃ entry ∈ similarCharsMap, entry.1 = letter ∧ c ∈ entry.2 := by
  obtain ⟨entry, isFirst, isLetter⟩ := Option.map_eq_some_iff.1 found
  refine ⟨entry, P.similar_perm.mem_iff.1 (List.mem_of_find?_eq_some isFirst), isLetter, ?_⟩
  simpa using List.find?_some isFirst

theorem findReplacement_eq_none_iff :
    findReplacement P c = none ↔ ∀ entry ∈ similarCharsMap, c ∉ entry.2 := by
  rw [findReplacement, Option.map_eq_none_iff, List.find?_eq_none]
  constructor
  · intro none entry member
    simpa using none entry (P.similar_perm.mem_iff.2 member)
  · intro none entry member
    simpa using none entry (P.similar_perm.mem_iff.1 member)

/-! ## What each pass keeps -/

theorem mem_skipDuplicates {α : Type} [DecidableEq α] {taken x : α} {s : List α} :
    x ∈ s → x = taken ∨ x ∈ skipDuplicates taken s := by
  induction s generalizing taken with
  | nil => intro member; cases member
  | cons y rest ih =>
      intro member
      rw [skipDuplicates]
      rcases List.mem_cons.1 member with rfl | later
      · split
        · next same => exact .inl same
        · exact .inr List.mem_cons_self
      · split
        · exact ih later
        · exact .inr (List.mem_cons.2 (ih later))

theorem skipDuplicates_subset {α : Type} [DecidableEq α] {taken : α} (s : List α) :
    skipDuplicates taken s ⊆ s := by
  induction s generalizing taken with
  | nil => exact List.Subset.refl _
  | cons y rest ih =>
      rw [skipDuplicates]
      split
      · exact fun x member => List.mem_cons_of_mem y (ih member)
      · exact List.cons_subset_cons y ih

theorem mem_removeDuplicates {α : Type} [DecidableEq α] {x : α} {s : List α} :
    x ∈ removeDuplicates s ↔ x ∈ s := by
  cases s with
  | nil => rfl
  | cons y rest =>
      rw [removeDuplicates, List.mem_cons, List.mem_cons]
      exact ⟨Or.imp_right fun member => skipDuplicates_subset rest member,
        fun member => member.elim .inl fun later => mem_skipDuplicates later⟩

theorem filter_dropWhile {α : Type} {p q : α → Bool} (dropped : ∀ c, q c = true → p c = false)
    (s : List α) : (s.dropWhile q).filter p = s.filter p := by
  induction s with
  | nil => rfl
  | cons x rest ih =>
      rw [List.dropWhile_cons]
      split
      · next isDropped => rw [ih, List.filter_cons_of_neg (by simp [dropped x isDropped])]
      · rfl

/-- What `trim` drops does not matter to a filter that drops it too. -/
theorem filter_trim {p : Char → Bool} (dropped : ∀ c, isTrimChar c = true → p c = false)
    (s : Wide) : (trim s).filter p = s.filter p := by
  rw [trim, ltrim, filter_dropWhile dropped, rtrim, List.rdropWhile, List.filter_reverse,
    filter_dropWhile dropped, List.filter_reverse, List.reverse_reverse]

theorem le_of_isTrimChar {c : Char} (trims : isTrimChar c = true) : c.toNat < 128 := by
  have all : (trimChars.all fun c => c.toNat < 128) = true := by decide
  exact of_decide_eq_true (List.all_eq_true.1 all c (List.contains_iff_mem.1 trims))

/-! ## The domain of `std::isalnum` -/

/-- A character that comes to a value of a narrow one: by itself, or by one of the tables. -/
def Folds (P : Platform) (c : Char) : Prop :=
  (P.toLower c).toNat ≤ 255 ∨ (∃ entry ∈ ruToLatMap, entry.1 = P.toLower c) ∨
    ∃ entry ∈ similarCharsMap, P.toLower c ∈ entry.2

instance : Decidable (Folds P c) := inferInstanceAs (Decidable (_ ∨ _ ∨ _))

/-- Each character of a name does. -/
def AllFold (P : Platform) (s : Wide) : Prop := ∀ c ∈ s, Folds P c

instance (s : Wide) : Decidable (AllFold P s) := List.decidableBAll (Folds P) s

theorem folds_iff : Folds P c ↔
    ∀ d ∈ (ruToLatMap.lookup (P.toLower c)).getD [P.toLower c],
      ((findReplacement P d).getD d).toNat ≤ 255 := by
  have replaced {d letter : Char} (found : findReplacement P d = some letter) :
      letter.toNat ≤ 255 := by
    obtain ⟨entry, member, rfl, -⟩ := findReplacement_mem found
    exact similar_keys entry member
  have small {d : Char} (le : d.toNat ≤ 255) : ((findReplacement P d).getD d).toNat ≤ 255 := by
    cases found : findReplacement P d with
    | none => exact le
    | some letter => exact replaced found
  cases found : ruToLatMap.lookup (P.toLower c) with
  | some word =>
      refine iff_of_true (.inr (.inl ⟨_, mem_of_lookup found, rfl⟩)) fun d member => ?_
      exact small (ruToLat_values _ (mem_of_lookup found) d member)
  | none =>
      have noRussian : ¬ ∃ entry ∈ ruToLatMap, entry.1 = P.toLower c := by
        rintro ⟨entry, member, same⟩
        simpa [same] using List.lookup_eq_none_iff.1 found entry member
      simp only [Folds, noRussian, false_or, Option.getD_none, List.mem_singleton, forall_eq]
      cases similar : findReplacement P (P.toLower c) with
      | none =>
          have unlisted := findReplacement_eq_none_iff.1 similar
          refine ⟨fun either => either.elim id ?_, .inl⟩
          rintro ⟨entry, member, listed⟩
          exact absurd listed (unlisted entry member)
      | some letter =>
          obtain ⟨entry, member, -, listed⟩ := findReplacement_mem similar
          exact iff_of_true (.inr ⟨entry, member, listed⟩) (replaced similar)

theorem narrow_iff {name : Wide} :
    (∀ c ∈ classified P name, c.toNat ≤ 255) ↔ AllFold P name := by
  have untrimmed (s : Wide) : (∀ c ∈ trim s, c.toNat ≤ 255) ↔ ∀ c ∈ s, c.toNat ≤ 255 := by
    have same := filter_trim (p := fun c => 255 < c.toNat) (fun c trims => by
      have less := le_of_isTrimChar trims
      simpa using (by omega : c.toNat ≤ 255)) s
    have none (s : Wide) : (∀ c ∈ s, c.toNat ≤ 255) ↔ s.filter (fun c => 255 < c.toNat) = [] := by
      simp [List.filter_eq_nil_iff]
    rw [none, none, same]
  rw [classified, untrimmed]
  simp only [replaceSimilar, transliterateRuToLat, List.forall_mem_map, List.mem_flatMap]
  constructor
  · intro small c member
    exact folds_iff.2 fun d inWord => small d
      ⟨P.toLower c, mem_removeDuplicates.2 (List.mem_map_of_mem member), inWord⟩
  · rintro folds d ⟨x, member, inWord⟩
    obtain ⟨c, inName, rfl⟩ := List.mem_map.1 (mem_removeDuplicates.1 member)
    exact folds_iff.1 (folds c inName) d inWord

/-- **The domain of `std::isalnum`.**  `normalization_str` passes it values of narrow characters
only when each character of the name, in small letters, is one or is in a table. -/
theorem classified_le_iff (P : Platform) (name : Wide) :
    (∀ c ∈ classified P name, c.toNat ≤ 255) ↔
      ∀ c ∈ name, (P.toLower c).toNat ≤ 255 ∨
        (∃ entry ∈ ruToLatMap, entry.1 = P.toLower c) ∨
        ∃ entry ∈ similarCharsMap, P.toLower c ∈ entry.2 :=
  narrow_iff

/-! ## The normal form -/

/-- What `normalization_str` gives where it is defined. -/
def normalForm (P : Platform) (s : Wide) : Wide := (classified P s).filter P.isAlnum

theorem eraseOthers_eq (s : Wide) :
    eraseOthers P s =
      if s.all fun c => c.toNat ≤ 255 then some (s.filter P.isAlnum) else none := by
  induction s with
  | nil => simp [eraseOthers]
  | cons c rest ih =>
      by_cases small : c.toNat ≤ 255
      · simp only [eraseOthers, isalnum, small, if_true, ih, Option.bind_eq_bind, Option.bind_some,
          List.all_cons, decide_true, Bool.true_and]
        split
        · simp only [Option.bind_some, List.filter_cons, Option.pure_def]
        · rfl
      · simp [eraseOthers, isalnum, small]

/-- **The normal form.**  A name has one if and only if each of its characters folds. -/
theorem normalizationStr_eq (s : Wide) :
    normalizationStr P s = if AllFold P s then some (normalForm P s) else none := by
  rw [normalizationStr, eraseOthers_eq, normalForm]
  refine if_congr ?_ rfl rfl
  rw [← narrow_iff]
  simp only [List.all_eq_true, decide_eq_true_eq]

theorem normalizationStr_eq_some_iff {s n : Wide} :
    normalizationStr P s = some n ↔ AllFold P s ∧ normalForm P s = n := by
  rw [normalizationStr_eq, Option.ite_none_right_eq_some, Option.some.injEq]

/-- A platform that does with other characters what it can, to run the model with. -/
def Platform.plain : Platform where
  toLower := Char.toLower
  isAlnum := Char.isAlphanum
  similar := similarCharsMap
  toLower_ascii _ _ := rfl
  isAlnum_ascii _ _ := rfl
  similar_perm := List.Perm.refl _

/-- A name of a Chinese character is passed as it is. -/
theorem classified_chinese : ¬ ∀ c ∈ classified Platform.plain ['中'], c.toNat ≤ 255 := by
  have passed : classified Platform.plain ['中'] = ['中'] := by decide +kernel
  rw [passed]
  intro small
  exact absurd (small '中' (List.mem_singleton_self _)) (by decide)

end Refsapi.Nicks
