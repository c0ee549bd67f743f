/-!
# Letters and digits

The characters that count as letters or digits in names: those of the Unicode properties
`Alphabetic` and `Numeric`. Beyond the basic plane the table tells blocks apart and not single
characters.
-/

namespace BuildEngine.Text

/-- The ranges of letters and digits beyond ASCII, in order. -/
def alphanumericRanges : List (Nat × Nat) :=
  [(0xAA, 0xAA), (0xB2, 0xB3), (0xB5, 0xB5), (0xB9, 0xBA), (0xBC, 0xBE), (0xC0, 0xD6),
    (0xD8, 0xF6), (0xF8, 0x2C1), (0x2C6, 0x2D1), (0x2E0, 0x2E4), (0x2EC, 0x2EC), (0x2EE, 0x2EE),
    (0x345, 0x345), (0x370, 0x374), (0x376, 0x37D), (0x37F, 0x37F), (0x386, 0x386), (0x388, 0x3F5),
    (0x3F7, 0x481), (0x48A, 0x559), (0x560, 0x588), (0x5D0, 0x5F2), (0x618, 0x61A), (0x620, 0x652),
    (0x660, 0x669), (0x66E, 0x6D3), (0x6D5, 0x6D5), (0x6E5, 0x6E6), (0x6EE, 0x6FC), (0x6FF, 0x6FF),
    (0x710, 0x72F), (0x74D, 0x7EA), (0x7F4, 0x7F5), (0x7FA, 0x7FA), (0x800, 0x815), (0x81A, 0x81A),
    (0x824, 0x824), (0x828, 0x828), (0x840, 0x858), (0x860, 0x887), (0x889, 0x88E), (0x8A0, 0x8C9),
    (0x8F0, 0x8F2), (0x900, 0x94C), (0x94E, 0x950), (0x955, 0x963), (0x966, 0x96F), (0x971, 0x9CC),
    (0x9CE, 0x9F1), (0x9F4, 0x9F9), (0x9FC, 0x9FC), (0xA01, 0xA4C), (0xA51, 0xA75), (0xA81, 0xACC),
    (0xAD0, 0xAEF), (0xAF9, 0xB4C), (0xB55, 0xB6F), (0xB71, 0xBCC), (0xBD0, 0xBF2), (0xC00, 0xC4C),
    (0xC55, 0xC6F), (0xC78, 0xC7E), (0xC80, 0xC83), (0xC85, 0xCCC), (0xCD5, 0xD3A), (0xD3D, 0xD4C),
    (0xD4E, 0xD4E), (0xD54, 0xD78), (0xD7A, 0xDC6), (0xDCF, 0xDF3), (0xE01, 0xE39), (0xE40, 0xE4E),
    (0xE50, 0xE59), (0xE81, 0xEB9), (0xEBB, 0xF00), (0xF20, 0xF33), (0xF39, 0xF39), (0xF3E, 0xF81),
    (0xF88, 0xFBC), (0x1000, 0x1038), (0x103B, 0x1049), (0x1050, 0x108C), (0x108E, 0x109D),
    (0x10A0, 0x10FA), (0x10FC, 0x135A), (0x1369, 0x138F), (0x13A0, 0x13FD), (0x1401, 0x166C),
    (0x166F, 0x167F), (0x1681, 0x169A), (0x16A0, 0x16EA), (0x16EE, 0x1713), (0x171F, 0x1733),
    (0x1740, 0x17D1), (0x17D3, 0x17D3), (0x17D7, 0x17D7), (0x17DC, 0x17DC), (0x17E0, 0x17F9),
    (0x180B, 0x180D), (0x180F, 0x1939), (0x1946, 0x19DA), (0x1A00, 0x1A16), (0x1A19, 0x1A1B),
    (0x1A20, 0x1A5E), (0x1A61, 0x1A74), (0x1A80, 0x1A99), (0x1AA7, 0x1AA7), (0x1B00, 0x1B43),
    (0x1B45, 0x1B59), (0x1B80, 0x1BA9), (0x1BAC, 0x1BF1), (0x1C00, 0x1C37), (0x1C40, 0x1C7D),
    (0x1C80, 0x1CBF), (0x1CD4, 0x1CD4), (0x1CE1, 0x1CEC), (0x1CEE, 0x1CF3), (0x1CF5, 0x1CF7),
    (0x1CFA, 0x1DBF), (0x1E00, 0x1FBC), (0x1FBE, 0x1FBE), (0x1FC2, 0x1FCC), (0x1FD0, 0x1FDB),
    (0x1FE0, 0x1FEC), (0x1FF2, 0x1FFC), (0x2070, 0x2079), (0x207F, 0x2089), (0x2090, 0x209C),
    (0x2102, 0x2102), (0x2107, 0x2107), (0x210A, 0x2113), (0x2115, 0x2115), (0x2119, 0x211D),
    (0x2124, 0x2124), (0x2126, 0x2126), (0x2128, 0x2128), (0x212A, 0x212D), (0x212F, 0x2139),
    (0x213C, 0x213F), (0x2145, 0x2149), (0x214E, 0x214E), (0x2150, 0x2189), (0x2460, 0x249B),
    (0x24EA, 0x24FF), (0x2776, 0x2793), (0x2C00, 0x2CE4), (0x2CEB, 0x2CEE), (0x2CF2, 0x2CF3),
    (0x2CFD, 0x2CFD), (0x2D00, 0x2D6F), (0x2D80, 0x2DDE), (0x2E2F, 0x2E2F), (0x3005, 0x3007),
    (0x3021, 0x302F), (0x3031, 0x3035), (0x3038, 0x303C), (0x3041, 0x309A), (0x309D, 0x309F),
    (0x30A1, 0x30FA), (0x30FC, 0x318E), (0x3192, 0x3195), (0x31A0, 0x31BF), (0x31F0, 0x31FF),
    (0x3220, 0x3229), (0x3248, 0x324F), (0x3251, 0x325F), (0x3280, 0x3289), (0x32B1, 0x32BF),
    (0x3400, 0x4DBF), (0x4E00, 0xA48C), (0xA4D0, 0xA4FD), (0xA500, 0xA60C), (0xA610, 0xA66E),
    (0xA67F, 0xA69D), (0xA6A0, 0xA6EF), (0xA717, 0xA71F), (0xA722, 0xA788), (0xA78B, 0xA805),
    (0xA807, 0xA827), (0xA830, 0xA835), (0xA840, 0xA873), (0xA880, 0xA8C3), (0xA8C5, 0xA8C5),
    (0xA8D0, 0xA8D9), (0xA8F2, 0xA8F7), (0xA8FB, 0xA8FB), (0xA8FD, 0xA92A), (0xA930, 0xA952),
    (0xA960, 0xA9BF), (0xA9CF, 0xA9D9), (0xA9E0, 0xAA59), (0xAA60, 0xAA76), (0xAA7A, 0xAAAF),
    (0xAAB1, 0xAAB1), (0xAAB5, 0xAAB6), (0xAAB9, 0xAABD), (0xAAC0, 0xAAC0), (0xAAC2, 0xAADD),
    (0xAAE0, 0xAAEF), (0xAAF2, 0xAAF5), (0xAB01, 0xAB5A), (0xAB5C, 0xAB69), (0xAB70, 0xABEA),
    (0xABEC, 0xABEC), (0xABF0, 0xFB28), (0xFB2A, 0xFBB1), (0xFBD3, 0xFD3D), (0xFD50, 0xFDC7),
    (0xFDF0, 0xFDFB), (0xFE70, 0xFEFC), (0xFF10, 0xFF19), (0xFF21, 0xFF3A), (0xFF41, 0xFF5A),
    (0xFF66, 0xFFDC), (0x10000, 0x1DFFF), (0x1E000, 0x1EEFF), (0x1F100, 0x1F10C),
    (0x20000, 0x3134F)]

/-- Whether a character is a letter or a digit. -/
def isAlphanumeric (c : Char) : Bool :=
  c.isAlphanum ||
    (0x80 ≤ c.toNat && alphanumericRanges.any fun r => r.1 ≤ c.toNat && c.toNat ≤ r.2)

end BuildEngine.Text
