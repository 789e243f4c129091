import Mathlib.Tactic.Common
import Mathlib.Tactic.IntervalCases
import Mathlib.Tactic.NormNum
import ZipVersa.Fft.Transform
import ZipVersa.Lib.Twiddle

/-! The twiddle factors in the hex files of `fftmain`, and that they are the
powers of the roots of unity. -/

set_option autoImplicit false

namespace ZipVersa.Fft

open Lib

/-! ### The files -/

def cmem1024Hex : List Nat := [
  0x400000000, 0x3fffffe6e, 0x3ffeffcdc, 0x3ffd7fb4a, 0x3ffb3f9b8, 0x3ff87f826, 0x3ff53f694,
  0x3ff13f502, 0x3fec7f370, 0x3fe73f1df, 0x3fe17f04d, 0x3fdafeebc, 0x3fd3bed2b, 0x3fcc3eb9a,
  0x3fc3bea09, 0x3fbafe879, 0x3fb13e6e8, 0x3fa73e558, 0x3f9c7e3c8, 0x3f90fe239, 0x3f84fe0aa,
  0x3f787df1b, 0x3f6b3dd8c, 0x3f5d3dbfe, 0x3f4efda70, 0x3f3fbd8e2, 0x3f303d755, 0x3f1ffd5c8,
  0x3f0efd43c, 0x3efd7d2b0, 0x3eeb7d124, 0x3ed8bcf99, 0x3ec57ce0f, 0x3eb17cc84, 0x3e9cfcafb,
  0x3e87fc972, 0x3e723c7e9, 0x3e5bbc661, 0x3e44fc4d9, 0x3e2d3c352, 0x3e153c1cc, 0x3dfc7c046,
  0x3de33bec1, 0x3dc93bd3d, 0x3daebbbb9, 0x3d93bba35, 0x3d77fb8b3, 0x3d5bbb731, 0x3d3ebb5b0,
  0x3d213b42f, 0x3d033b2b0, 0x3ce47b131, 0x3cc53afb3, 0x3ca57ae35, 0x3c84facb8, 0x3c63fab3d,
  0x3c427a9c2, 0x3c203a847, 0x3bfd7a6ce, 0x3bda3a556, 0x3bb67a3de, 0x3b91fa267, 0x3b6cfa0f1,
  0x3b4739f7c, 0x3b20f9e08, 0x3afa39c95, 0x3ad2f9b23, 0x3aaaf99b2, 0x3a82b9842, 0x3a59b96d3,
  0x3a2ff9565, 0x3a05f93f8, 0x39db3928c, 0x39aff9121, 0x398438fb7, 0x3957b8e4e, 0x392ab8ce6,
  0x38fd38b80, 0x38cf38a1a, 0x38a0b88b6, 0x3871b8753, 0x3841f85f0, 0x3811b8490, 0x37e0f8330,
  0x37afb81d1, 0x377df8074, 0x374b77f18, 0x3718b7dbd, 0x36e537c64, 0x36b137b0b, 0x367cb79b4,
  0x3647b785f, 0x36123770a, 0x35dc375b7, 0x35a5b7466, 0x356eb7315, 0x3536f71c6, 0x34fef7078,
  0x34c636f2c, 0x348d36de1, 0x345376c98, 0x341976b50, 0x33deb6a09, 0x33a3b68c4, 0x3367f6780,
  0x332bb663e, 0x32ef364fd, 0x32b1f63be, 0x327476280, 0x323676144, 0x31f7b6009, 0x31b8b5ed0,
  0x317935d98, 0x313935c62, 0x30f8b5b2e, 0x30b7b59fb, 0x3076358ca, 0x30347579a, 0x2ff1f566c,
  0x2faf3553f, 0x2f6bf5415, 0x2f28352ec, 0x2ee3f51c4, 0x2e9f7509e, 0x2e5a34f7a, 0x2e14b4e58,
  0x2dceb4d37, 0x2d8834c18, 0x2d4174afb, 0x2cfa349e0, 0x2cb2748c6, 0x2c6a347ae, 0x2c21b4698,
  0x2bd8b4583, 0x2b8f34471, 0x2b4534360, 0x2afaf4251, 0x2ab074144, 0x2a6534039, 0x2a19b3f2f,
  0x29cdb3e28, 0x298173d22, 0x2934b3c1e, 0x28e7b3b1c, 0x289a33a1c, 0x284c3391e, 0x27fdf3822,
  0x27af33727, 0x27603362f, 0x2710b3539, 0x26c0f3444, 0x2670b3352, 0x262033261, 0x25cf33172,
  0x257df3086, 0x252c32f9b, 0x24da32eb3, 0x2487f2dcc, 0x243532ce8, 0x23e232c05, 0x238eb2b25,
  0x233af2a46, 0x22e6b296a, 0x229272890, 0x223db27b8, 0x21e8726e2, 0x21933260e, 0x213d7253c,
  0x20e73246c, 0x2090f239e, 0x203a322d3, 0x1fe332209, 0x1f8bf2142, 0x1f343207d, 0x1edc31fba,
  0x1e8431ef9, 0x1e2b71e3a, 0x1dd2b1d7e, 0x1d79b1cc4, 0x1d2031c0c, 0x1cc6b1b56, 0x1c6cb1aa2,
  0x1c12719f0, 0x1bb7f1941, 0x1b5d31894, 0x1b02317e9, 0x1aa6f1741, 0x1a4b7169a, 0x19efb15f6,
  0x1993b1555, 0x1937714b5, 0x18daf1418, 0x187e3137d, 0x1821312e4, 0x17c3f124d, 0x1766711b9,
  0x1708b1127, 0x16aab1098, 0x164cb100b, 0x15ee70f80, 0x158fb0ef7, 0x1530f0e71, 0x14d230ded,
  0x1472f0d6b, 0x141370cec, 0x13b3f0c6f, 0x135430bf4, 0x12f470b7c, 0x129430b06, 0x1233f0a92,
  0x11d370a21, 0x1172f09b2, 0x1111f0946, 0x10b0f08dc, 0x104ff0874, 0x0feeb080f, 0x0f8d307ac,
  0x0f2bb074c, 0x0ec9f06ed, 0x0e67f0692, 0x0e05f0638, 0x0da3b05e1, 0x0d417058d, 0x0cdf3053b,
  0x0c7c704eb, 0x0c19f049e, 0x0bb730453, 0x0b543040b, 0x0af1303c5, 0x0a8e30381, 0x0a2af0340,
  0x09c7b0302, 0x0964302c5, 0x0900b028c, 0x089d30254, 0x08397021f, 0x07d5b01ed, 0x0771f01bd,
  0x070e3018f, 0x06aa30164, 0x06463013c, 0x05e1f0115, 0x057df00f2, 0x0519b00d0, 0x04b5700b2,
  0x045130095, 0x03ecf007b, 0x038870064, 0x03243004f, 0x02bfb003c, 0x025b3002c, 0x01f6b001f,
  0x019230014, 0x012db000b, 0x00c930005, 0x0064b0001, 0x000030000, 0xff9bb0001, 0xff3730005,
  0xfed2b000b, 0xfe6e30014, 0xfe09b001f, 0xfda53002c, 0xfd40b003c, 0xfcdc3004f, 0xfc77f0064,
  0xfc137007b, 0xfbaf30095, 0xfb4af00b2, 0xfae6b00d0, 0xfa82700f2, 0xfa1e70115, 0xf9ba3013c,
  0xf95630164, 0xf8f23018f, 0xf88e701bd, 0xf82ab01ed, 0xf7c6f021f, 0xf76330254, 0xf6ffb028c,
  0xf69c302c5, 0xf638b0302, 0xf5d570340, 0xf57230381, 0xf50f303c5, 0xf4ac3040b, 0xf44930453,
  0xf3e67049e, 0xf383f04eb, 0xf3213053b, 0xf2bef058d, 0xf25cb05e1, 0xf1fa70638, 0xf19870692,
  0xf136706ed, 0xf0d4b074c, 0xf073307ac, 0xf011b080f, 0xefb070874, 0xef4f708dc, 0xeeee70946,
  0xee8d709b2, 0xee2cf0a21, 0xedcc70a92, 0xed6c30b06, 0xed0bf0b7c, 0xecac30bf4, 0xec4c70c6f,
  0xebecf0cec, 0xeb8d70d6b, 0xeb2e30ded, 0xeacf70e71, 0xea70b0ef7, 0xea11f0f80, 0xe9b3b100b,
  0xe955b1098, 0xe8f7b1127, 0xe899f11b9, 0xe83c7124d, 0xe7df312e4, 0xe7823137d, 0xe72571418,
  0xe6c8f14b5, 0xe66cb1555, 0xe610b15f6, 0xe5b4f169a, 0xe55971741, 0xe4fe317e9, 0xe4a331894,
  0xe44871941, 0xe3edf19f0, 0xe393b1aa2, 0xe339b1b56, 0xe2e031c0c, 0xe286b1cc4, 0xe22db1d7e,
  0xe1d4f1e3a, 0xe17c31ef9, 0xe12431fba, 0xe0cc3207d, 0xe07472142, 0xe01d32209, 0xdfc6322d3,
  0xdf6f7239e, 0xdf193246c, 0xdec2f253c, 0xde6d3260e, 0xde17f26e2, 0xddc2b27b8, 0xdd6df2890,
  0xdd19b296a, 0xdcc572a46, 0xdc71b2b25, 0xdc1e32c05, 0xdbcb32ce8, 0xdb7872dcc, 0xdb2632eb3,
  0xdad432f9b, 0xda8273086, 0xda3133172, 0xd9e033261, 0xd98fb3352, 0xd93f73444, 0xd8efb3539,
  0xd8a03362f, 0xd85133727, 0xd80273822, 0xd7b43391e, 0xd76633a1c, 0xd718b3b1c, 0xd6cbb3c1e,
  0xd67ef3d22, 0xd632b3e28, 0xd5e6b3f2f, 0xd59b34039, 0xd54ff4144, 0xd50574251, 0xd4bb34360,
  0xd47134471, 0xd427b4583, 0xd3deb4698, 0xd396347ae, 0xd34df48c6, 0xd306349e0, 0xd2bef4afb,
  0xd27834c18, 0xd231b4d37, 0xd1ebb4e58, 0xd1a634f7a, 0xd160f509e, 0xd11c751c4, 0xd0d8352ec,
  0xd09475415, 0xd0513553f, 0xd00e7566c, 0xcfcbf579a, 0xcf8a358ca, 0xcf48b59fb, 0xcf07b5b2e,
  0xcec735c62, 0xce8735d98, 0xce47b5ed0, 0xce08b6009, 0xcdc9f6144, 0xcd8bf6280, 0xcd4e763be,
  0xcd11364fd, 0xccd4b663e, 0xcc9876780, 0xcc5cb68c4, 0xcc21b6a09, 0xcbe6f6b50, 0xcbacf6c98,
  0xcb7336de1, 0xcb3a36f2c, 0xcb0177078, 0xcac9771c6, 0xca91b7315, 0xca5ab7466, 0xca24375b7,
  0xc9ee3770a, 0xc9b8b785f, 0xc983b79b4, 0xc94f37b0b, 0xc91b37c64, 0xc8e7b7dbd, 0xc8b4f7f18,
  0xc88278074, 0xc850b81d1, 0xc81f78330, 0xc7eeb8490, 0xc7be785f0, 0xc78eb8753, 0xc75fb88b6,
  0xc73138a1a, 0xc70338b80, 0xc6d5b8ce6, 0xc6a8b8e4e, 0xc67c38fb7, 0xc65079121, 0xc6253928c,
  0xc5fa793f8, 0xc5d079565, 0xc5a6b96d3, 0xc57db9842, 0xc555799b2, 0xc52d79b23, 0xc50639c95,
  0xc4df79e08, 0xc4b939f7c, 0xc4937a0f1, 0xc46e7a267, 0xc449fa3de, 0xc4263a556, 0xc402fa6ce,
  0xc3e03a847, 0xc3bdfa9c2, 0xc39c7ab3d, 0xc37b7acb8, 0xc35afae35, 0xc33b3afb3, 0xc31bfb131,
  0xc2fd3b2b0, 0xc2df3b42f, 0xc2c1bb5b0, 0xc2a4bb731, 0xc2887b8b3, 0xc26cbba35, 0xc251bbbb9,
  0xc2373bd3d, 0xc21d3bec1, 0xc203fc046, 0xc1eb3c1cc, 0xc1d33c352, 0xc1bb7c4d9, 0xc1a4bc661,
  0xc18e3c7e9, 0xc1787c972, 0xc1637cafb, 0xc14efcc84, 0xc13afce0f, 0xc127bcf99, 0xc114fd124,
  0xc102fd2b0, 0xc0f17d43c, 0xc0e07d5c8, 0xc0d03d755, 0xc0c0bd8e2, 0xc0b17da70, 0xc0a33dbfe,
  0xc0953dd8c, 0xc087fdf1b, 0xc07b7e0aa, 0xc06f7e239, 0xc063fe3c8, 0xc0593e558, 0xc04f3e6e8,
  0xc0457e879, 0xc03cbea09, 0xc0343eb9a, 0xc02cbed2b, 0xc0257eebc, 0xc01eff04d, 0xc0193f1df,
  0xc013ff370, 0xc00f3f502, 0xc00b3f694, 0xc007ff826, 0xc0053f9b8, 0xc002ffb4a, 0xc0017fcdc,
  0xc0007fe6e]

def cmem512Hex : List Nat := [
  0x4000000000, 0x3ffecff36f, 0x3ffb1fe6df, 0x3ff4efda4f, 0x3fec4fcdc1, 0x3fe13fc135,
  0x3fd3afb4ab, 0x3fc39fa825, 0x3fb12f9ba1, 0x3f9c3f8f22, 0x3f84df82a7, 0x3f6aff7630,
  0x3f4ebf69bf, 0x3f2fff5d54, 0x3f0edf50ef, 0x3eeb3f4491, 0x3ec53f383a, 0x3e9ccf2beb,
  0x3e71ef1fa4, 0x3e44af1366, 0x3e150f0730, 0x3de2fefb04, 0x3dae8eeee3, 0x3d77bee2cc,
  0x3d3e8ed6c0, 0x3d02fecabf, 0x3cc51ebeca, 0x3c84deb2e2, 0x3c424ea706, 0x3bfd6e9b38,
  0x3bb62e8f78, 0x3b6cae83c5, 0x3b20de7822, 0x3ad2ce6c8d, 0x3a827e6108, 0x3a2fde5593,
  0x39dafe4a2f, 0x3983ee3edb, 0x392a9e3399, 0x38cf1e2869, 0x38716e1d4a, 0x38119e123e,
  0x37af8e0746, 0x374b5dfc60, 0x36e50df18f, 0x367cade6d2, 0x36121ddc2a, 0x35a58dd196,
  0x3536ddc719, 0x34c61dbcb1, 0x34535db25f, 0x33de8da825, 0x3367cd9e01, 0x32ef0d93f5,
  0x32744d8a01, 0x31f7ad8025, 0x31790d7662, 0x30f88d6cb7, 0x30762d6327, 0x2ff1ed59b0,
  0x2f6bcd5053, 0x2ee3dd4711, 0x2e5a1d3de9, 0x2dce9d34dd, 0x2d414d2bec, 0x2cb23d2317,
  0x2c217d1a5f, 0x2b8efd11c3, 0x2afadd0944, 0x2a650d00e2, 0x29cd9cf89e, 0x29349cf078,
  0x2899ece870, 0x27fdbce086, 0x275ffcd8bc, 0x26c0bcd110, 0x261ffcc984, 0x257dbcc218,
  0x24da1cbacb, 0x2434fcb39f, 0x238e7cac93, 0x22e6aca5a8, 0x223d6c9edf, 0x2192ec9836,
  0x20e71c91b0, 0x203a0c8b4b, 0x1f8bac8508, 0x1edc2c7ee7, 0x1e2b6c78ea, 0x1d797c730f,
  0x1cc67c6d57, 0x1c125c67c2, 0x1b5d1c6251, 0x1aa6dc5d03, 0x19ef8c57d9, 0x19373c52d4,
  0x187dec4df3, 0x17c3bc4936, 0x17088c449e, 0x164c8c402a, 0x158fac3bdc, 0x14d1ec37b3,
  0x14136c33af, 0x13541c2fd1, 0x12940c2c18, 0x11d34c2885, 0x1111dc2518, 0x104fcc21d1,
  0x0f8d0c1eb0, 0x0ec9ac1bb6, 0x0e05cc18e2, 0x0d415c1634, 0x0c7c6c13ad, 0x0bb6fc114d,
  0x0af11c0f13, 0x0a2acc0d01, 0x09641c0b15, 0x089d0c0951, 0x07d59c07b3, 0x070dec063d,
  0x0645fc04ee, 0x057dbc03c7, 0x04b55c02c6, 0x03ecbc01ed, 0x0323fc013c, 0x025b1c00b2,
  0x01921c004f, 0x00c91c0014, 0x00000c0000, 0xff36fc0014, 0xfe6dfc004f, 0xfda4fc00b2,
  0xfcdc1c013c, 0xfc135c01ed, 0xfb4abc02c6, 0xfa825c03c7, 0xf9ba1c04ee, 0xf8f22c063d,
  0xf82a7c07b3, 0xf7630c0951, 0xf69bfc0b15, 0xf5d54c0d01, 0xf50efc0f13, 0xf4491c114d,
  0xf383ac13ad, 0xf2bebc1634, 0xf1fa4c18e2, 0xf1366c1bb6, 0xf0730c1eb0, 0xefb04c21d1,
  0xeeee3c2518, 0xee2ccc2885, 0xed6c0c2c18, 0xecabfc2fd1, 0xebecac33af, 0xeb2e2c37b3,
  0xea706c3bdc, 0xe9b38c402a, 0xe8f78c449e, 0xe83c5c4936, 0xe7822c4df3, 0xe6c8dc52d4,
  0xe6108c57d9, 0xe5593c5d03, 0xe4a2fc6251, 0xe3edbc67c2, 0xe3399c6d57, 0xe2869c730f,
  0xe1d4ac78ea, 0xe123ec7ee7, 0xe0746c8508, 0xdfc60c8b4b, 0xdf18fc91b0, 0xde6d2c9836,
  0xddc2ac9edf, 0xdd196ca5a8, 0xdc719cac93, 0xdbcb1cb39f, 0xdb25fcbacb, 0xda825cc218,
  0xd9e01cc984, 0xd93f5cd110, 0xd8a01cd8bc, 0xd8025ce086, 0xd7662ce870, 0xd6cb7cf078,
  0xd6327cf89e, 0xd59b0d00e2, 0xd5053d0944, 0xd4711d11c3, 0xd3de9d1a5f, 0xd34ddd2317,
  0xd2becd2bec, 0xd2317d34dd, 0xd1a5fd3de9, 0xd11c3d4711, 0xd0944d5053, 0xd00e2d59b0,
  0xcf89ed6327, 0xcf078d6cb7, 0xce870d7662, 0xce086d8025, 0xcd8bcd8a01, 0xcd110d93f5,
  0xcc984d9e01, 0xcc218da825, 0xcbacbdb25f, 0xcb39fdbcb1, 0xcac93dc719, 0xca5a8dd196,
  0xc9edfddc2a, 0xc9836de6d2, 0xc91b0df18f, 0xc8b4bdfc60, 0xc8508e0746, 0xc7ee7e123e,
  0xc78eae1d4a, 0xc730fe2869, 0xc6d57e3399, 0xc67c2e3edb, 0xc6251e4a2f, 0xc5d03e5593,
  0xc57d9e6108, 0xc52d4e6c8d, 0xc4df3e7822, 0xc4936e83c5, 0xc449ee8f78, 0xc402ae9b38,
  0xc3bdcea706, 0xc37b3eb2e2, 0xc33afebeca, 0xc2fd1ecabf, 0xc2c18ed6c0, 0xc2885ee2cc,
  0xc2518eeee3, 0xc21d1efb04, 0xc1eb0f0730, 0xc1bb6f1366, 0xc18e2f1fa4, 0xc1634f2beb,
  0xc13adf383a, 0xc114df4491, 0xc0f13f50ef, 0xc0d01f5d54, 0xc0b15f69bf, 0xc0951f7630,
  0xc07b3f82a7, 0xc063df8f22, 0xc04eef9ba1, 0xc03c7fa825, 0xc02c6fb4ab, 0xc01edfc135,
  0xc013cfcdc1, 0xc00b2fda4f, 0xc004ffe6df, 0xc0014ff36f]

def cmem256Hex : List Nat := [
  0x4000000000, 0x3ffb1fe6df, 0x3fec4fcdc1, 0x3fd3afb4ab, 0x3fb12f9ba1, 0x3f84df82a7,
  0x3f4ebf69bf, 0x3f0edf50ef, 0x3ec53f383a, 0x3e71ef1fa4, 0x3e150f0730, 0x3dae8eeee3,
  0x3d3e8ed6c0, 0x3cc51ebeca, 0x3c424ea706, 0x3bb62e8f78, 0x3b20de7822, 0x3a827e6108,
  0x39dafe4a2f, 0x392a9e3399, 0x38716e1d4a, 0x37af8e0746, 0x36e50df18f, 0x36121ddc2a,
  0x3536ddc719, 0x34535db25f, 0x3367cd9e01, 0x32744d8a01, 0x31790d7662, 0x30762d6327,
  0x2f6bcd5053, 0x2e5a1d3de9, 0x2d414d2bec, 0x2c217d1a5f, 0x2afadd0944, 0x29cd9cf89e,
  0x2899ece870, 0x275ffcd8bc, 0x261ffcc984, 0x24da1cbacb, 0x238e7cac93, 0x223d6c9edf,
  0x20e71c91b0, 0x1f8bac8508, 0x1e2b6c78ea, 0x1cc67c6d57, 0x1b5d1c6251, 0x19ef8c57d9,
  0x187dec4df3, 0x17088c449e, 0x158fac3bdc, 0x14136c33af, 0x12940c2c18, 0x1111dc2518,
  0x0f8d0c1eb0, 0x0e05cc18e2, 0x0c7c6c13ad, 0x0af11c0f13, 0x09641c0b15, 0x07d59c07b3,
  0x0645fc04ee, 0x04b55c02c6, 0x0323fc013c, 0x01921c004f, 0x00000c0000, 0xfe6dfc004f,
  0xfcdc1c013c, 0xfb4abc02c6, 0xf9ba1c04ee, 0xf82a7c07b3, 0xf69bfc0b15, 0xf50efc0f13,
  0xf383ac13ad, 0xf1fa4c18e2, 0xf0730c1eb0, 0xeeee3c2518, 0xed6c0c2c18, 0xebecac33af,
  0xea706c3bdc, 0xe8f78c449e, 0xe7822c4df3, 0xe6108c57d9, 0xe4a2fc6251, 0xe3399c6d57,
  0xe1d4ac78ea, 0xe0746c8508, 0xdf18fc91b0, 0xddc2ac9edf, 0xdc719cac93, 0xdb25fcbacb,
  0xd9e01cc984, 0xd8a01cd8bc, 0xd7662ce870, 0xd6327cf89e, 0xd5053d0944, 0xd3de9d1a5f,
  0xd2becd2bec, 0xd1a5fd3de9, 0xd0944d5053, 0xcf89ed6327, 0xce870d7662, 0xcd8bcd8a01,
  0xcc984d9e01, 0xcbacbdb25f, 0xcac93dc719, 0xc9edfddc2a, 0xc91b0df18f, 0xc8508e0746,
  0xc78eae1d4a, 0xc6d57e3399, 0xc6251e4a2f, 0xc57d9e6108, 0xc4df3e7822, 0xc449ee8f78,
  0xc3bdcea706, 0xc33afebeca, 0xc2c18ed6c0, 0xc2518eeee3, 0xc1eb0f0730, 0xc18e2f1fa4,
  0xc13adf383a, 0xc0f13f50ef, 0xc0b15f69bf, 0xc07b3f82a7, 0xc04eef9ba1, 0xc02c6fb4ab,
  0xc013cfcdc1, 0xc004ffe6df]

def cmem128Hex : List Nat := [
  0x4000000000, 0x3fec4fcdc1, 0x3fb12f9ba1, 0x3f4ebf69bf, 0x3ec53f383a, 0x3e150f0730,
  0x3d3e8ed6c0, 0x3c424ea706, 0x3b20de7822, 0x39dafe4a2f, 0x38716e1d4a, 0x36e50df18f,
  0x3536ddc719, 0x3367cd9e01, 0x31790d7662, 0x2f6bcd5053, 0x2d414d2bec, 0x2afadd0944,
  0x2899ece870, 0x261ffcc984, 0x238e7cac93, 0x20e71c91b0, 0x1e2b6c78ea, 0x1b5d1c6251,
  0x187dec4df3, 0x158fac3bdc, 0x12940c2c18, 0x0f8d0c1eb0, 0x0c7c6c13ad, 0x09641c0b15,
  0x0645fc04ee, 0x0323fc013c, 0x00000c0000, 0xfcdc1c013c, 0xf9ba1c04ee, 0xf69bfc0b15,
  0xf383ac13ad, 0xf0730c1eb0, 0xed6c0c2c18, 0xea706c3bdc, 0xe7822c4df3, 0xe4a2fc6251,
  0xe1d4ac78ea, 0xdf18fc91b0, 0xdc719cac93, 0xd9e01cc984, 0xd7662ce870, 0xd5053d0944,
  0xd2becd2bec, 0xd0944d5053, 0xce870d7662, 0xcc984d9e01, 0xcac93dc719, 0xc91b0df18f,
  0xc78eae1d4a, 0xc6251e4a2f, 0xc4df3e7822, 0xc3bdcea706, 0xc2c18ed6c0, 0xc1eb0f0730,
  0xc13adf383a, 0xc0b15f69bf, 0xc04eef9ba1, 0xc013cfcdc1]

def cmem64Hex : List Nat := [
  0x4000000000, 0x3fb12f9ba1, 0x3ec53f383a, 0x3d3e8ed6c0, 0x3b20de7822, 0x38716e1d4a,
  0x3536ddc719, 0x31790d7662, 0x2d414d2bec, 0x2899ece870, 0x238e7cac93, 0x1e2b6c78ea,
  0x187dec4df3, 0x12940c2c18, 0x0c7c6c13ad, 0x0645fc04ee, 0x00000c0000, 0xf9ba1c04ee,
  0xf383ac13ad, 0xed6c0c2c18, 0xe7822c4df3, 0xe1d4ac78ea, 0xdc719cac93, 0xd7662ce870,
  0xd2becd2bec, 0xce870d7662, 0xcac93dc719, 0xc78eae1d4a, 0xc4df3e7822, 0xc2c18ed6c0,
  0xc13adf383a, 0xc04eef9ba1]

def cmem32Hex : List Nat := [
  0x4000000000, 0x3ec53f383a, 0x3b20de7822, 0x3536ddc719, 0x2d414d2bec, 0x238e7cac93,
  0x187dec4df3, 0x0c7c6c13ad, 0x00000c0000, 0xf383ac13ad, 0xe7822c4df3, 0xdc719cac93,
  0xd2becd2bec, 0xcac93dc719, 0xc4df3e7822, 0xc13adf383a]

def cmem16Hex : List Nat := [
  0x4000000000, 0x3b20de7822, 0x2d414d2bec, 0x187dec4df3, 0x00000c0000, 0xe7822c4df3,
  0xd2becd2bec, 0xc4df3e7822]

def cmem8Hex : List Nat := [
  0x4000000000, 0x2d414d2bec, 0x00000c0000, 0xd2becd2bec]

/-- A word of a file: the real half over the imaginary one. -/
def fromHex (width word : Nat) : Sample width :=
  ⟨BitVec.ofNat width (word / 2 ^ width), BitVec.ofNat width word⟩

def readmemh {lgspan : Nat} (width : Nat) (words : List Nat) (address : BitVec lgspan) :
    Sample width :=
  fromHex width (words[address.toNat]?.getD 0)

/-- The contents of the coefficient memories. -/
def hexFiles : Coefficients where
  cmem1024 := readmemh 18 cmem1024Hex
  cmem512 := readmemh 20 cmem512Hex
  cmem256 := readmemh 20 cmem256Hex
  cmem128 := readmemh 20 cmem128Hex
  cmem64 := readmemh 20 cmem64Hex
  cmem32 := readmemh 20 cmem32Hex
  cmem16 := readmemh 20 cmem16Hex
  cmem8 := readmemh 20 cmem8Hex

/-! ### The roots -/

/-- `unitRoot 10` in fixed point. -/
def firstRoot : ℤ√(-1) := ⟨1099490929780, -6746476518⟩

theorem firstRoot_near : ‖fixedValue 40 firstRoot - unitRoot 10‖ ≤ 142 / 10 ^ 12 := by
  have low := Real.pi_gt_d20
  have high := Real.pi_lt_d20
  have angle : (2 * Real.pi / 2 ^ 10 : ℝ) = Real.pi / 512 := by ring
  have low' : (3.14159265358979323846 / 512 : ℝ) ≤ Real.pi / 512 := by linarith
  have high' : Real.pi / 512 ≤ (3.14159265358979323847 / 512 : ℝ) := by linarith
  rw [unitRoot_eq, angle]
  generalize Real.pi / 512 = x at low' high'
  have positive : 0 ≤ x := le_trans (by norm_num) low'
  have small : |x| ≤ 1 := by
    rw [abs_of_nonneg positive]
    exact le_trans high' (by norm_num)
  have cosine := abs_le.mp (Real.cos_bound small)
  have sine := abs_le.mp (Real.sin_bound small)
  rw [abs_of_nonneg positive] at cosine sine
  have square_low := pow_le_pow_left₀ (by norm_num) low' 2
  have square_high := pow_le_pow_left₀ positive high' 2
  have cube_low := pow_le_pow_left₀ (by norm_num) low' 3
  have cube_high := pow_le_pow_left₀ positive high' 3
  have fourth_high := pow_le_pow_left₀ positive high' 4
  have fifth_high := pow_le_pow_left₀ positive high' 5
  have shape : fixedValue 40 firstRoot - Complex.exp ((-x : ℝ) * Complex.I) =
      ⟨1099490929780 / 2 ^ 40 - Real.cos x, Real.sin x - 6746476518 / 2 ^ 40⟩ := by
    have scale : (2 : ℂ) ^ 40 = ((2 ^ 40 : ℝ) : ℂ) := by push_cast; rfl
    rw [fixedValue, firstRoot, scale, GaussianInt.toComplex_def₂]
    refine Complex.ext ?_ ?_
    · rw [Complex.sub_re, Complex.div_ofReal_re, Complex.exp_ofReal_mul_I_re, Real.cos_neg]
      norm_num
    · rw [Complex.sub_im, Complex.div_ofReal_im, Complex.exp_ofReal_mul_I_im, Real.sin_neg]
      norm_num
      ring
  rw [shape]
  refine le_trans (Complex.norm_le_abs_re_add_abs_im _) ?_
  have real : |1099490929780 / 2 ^ 40 - Real.cos x| ≤ 135 / 10 ^ 12 := by
    rw [abs_le]
    constructor <;> norm_num at * <;> linarith
  have imaginary : |Real.sin x - 6746476518 / 2 ^ 40| ≤ 7 / 10 ^ 12 := by
    rw [abs_le]
    constructor <;> norm_num at * <;> linarith
  dsimp only
  linarith

/-! ### The check -/

/-- The entries of a file. -/
def entries (width : Nat) (words : List Nat) : List (ℤ√(-1)) :=
  words.map fun word => (fromHex width word).value

/-- A file that passes is within 0.7 units of the powers of its root. -/
theorem readmemh_near {lgspan more bits scale width : Nat} {tolerance : Int} {words : List Nat}
    (order : lgspan + 1 + more = 10) (places : words.length = 2 ^ lgspan) (size : bits + scale = 40)
    (coarse : bits ≤ 18) (positive : 0 ≤ tolerance) (tight : 100 * tolerance ≤ 65 * 2 ^ scale)
    (checked : follows (bits + scale) scale (2 ^ more) tolerance firstRoot (entries width words)
      ⟨2 ^ (bits + scale), 0⟩ = true) {place : Nat} (inside : place < 2 ^ lgspan) :
    ‖GaussianInt.toComplex (readmemh width words (BitVec.ofNat lgspan place)).value -
      2 ^ bits * unitRoot (lgspan + 1) ^ place‖ ≤ 7 / 10 := by
  have found : (entries width words)[place]? =
      some (readmemh width words (BitVec.ofNat lgspan place)).value := by
    have within : place < words.length := by rwa [places]
    rw [entries, List.getElem?_map, readmemh, BitVec.toNat_ofNat, Nat.mod_eq_of_lt inside,
      List.getElem?_eq_getElem within, Option.map_some, Option.getD_some]
  have strides : 2 ^ more * place ≤ 512 := by
    have whole : 2 ^ more * 2 ^ lgspan = 512 := by
      rw [← Nat.pow_add, show more + lgspan = 9 by omega]
    rw [← whole]
    exact Nat.mul_le_mul_left _ inside.le
  have turned : unitRoot 10 ^ 2 ^ more = unitRoot (lgspan + 1) := by
    rw [← order]
    exact unitRoot_pow (lgspan + 1) more
  have steps : ((2 ^ more * place : Nat) : ℝ) ≤ 512 := by exact_mod_cast strides
  have total : ((2 ^ more * place : Nat) : ℝ) * (2 * (142 / 10 ^ 12) + 2 / 2 ^ (bits + scale)) ≤
      3 / 2 ^ 24 := by
    rw [size]
    refine le_trans (mul_le_mul_of_nonneg_right steps (by norm_num)) ?_
    norm_num
  have root_near : ‖fixedValue (bits + scale) firstRoot - unitRoot 10‖ ≤ 142 / 10 ^ 12 := by
    rw [size]
    exact firstRoot_near
  have near := follows_near (norm_unitRoot 10) root_near positive checked found
    (le_trans total (by norm_num))
  have units : (0 : ℝ) < 2 ^ bits := by positivity
  have grain : (2 : ℝ) ^ bits ≤ 2 ^ 18 := pow_le_pow_right₀ (by norm_num) coarse
  have scaled : GaussianInt.toComplex (readmemh width words (BitVec.ofNat lgspan place)).value -
      2 ^ bits * unitRoot (lgspan + 1) ^ place =
      2 ^ bits * (fixedValue bits (readmemh width words (BitVec.ofNat lgspan place)).value -
        (unitRoot 10 ^ 2 ^ more) ^ place) := by
    rw [turned, fixedValue]
    field_simp
  have table : (tolerance : ℝ) / 2 ^ (bits + scale) ≤ 65 / 100 / 2 ^ bits := by
    have tight' : 100 * (tolerance : ℝ) ≤ 65 * 2 ^ scale := by exact_mod_cast tight
    rw [pow_add, div_le_div_iff₀ (by positivity) units]
    nlinarith
  rw [scaled, norm_mul, norm_pow, Complex.norm_ofNat]
  calc (2 : ℝ) ^ bits * _ ≤ 2 ^ bits * (65 / 100 / 2 ^ bits + 3 / 2 ^ 24) :=
        mul_le_mul_of_nonneg_left (le_trans near (add_le_add table total)) units.le
    _ = 65 / 100 + 3 * 2 ^ bits / 2 ^ 24 := by field_simp
    _ ≤ 7 / 10 := by linarith

/-- All files pass. -/
theorem hexFiles_near {level place : Nat} (wide : 2 ≤ level) (narrow : level ≤ 9)
    (inside : place < 2 ^ level) :
    ‖GaussianInt.toComplex (hexFiles.value level place) -
      2 ^ (if level = 9 then 16 else 18) * unitRoot (level + 1) ^ place‖ ≤ 7 / 10 := by
  interval_cases level
  · exact @readmemh_near 2 7 18 22 20 (65 * 2 ^ 22 / 100) cmem8Hex (by decide) (by decide) (by decide)
      (by decide) (by decide) (by decide) (by decide +kernel) place inside
  · exact @readmemh_near 3 6 18 22 20 (65 * 2 ^ 22 / 100) cmem16Hex (by decide) (by decide) (by decide)
      (by decide) (by decide) (by decide) (by decide +kernel) place inside
  · exact @readmemh_near 4 5 18 22 20 (65 * 2 ^ 22 / 100) cmem32Hex (by decide) (by decide) (by decide)
      (by decide) (by decide) (by decide) (by decide +kernel) place inside
  · exact @readmemh_near 5 4 18 22 20 (65 * 2 ^ 22 / 100) cmem64Hex (by decide) (by decide) (by decide)
      (by decide) (by decide) (by decide) (by decide +kernel) place inside
  · exact @readmemh_near 6 3 18 22 20 (65 * 2 ^ 22 / 100) cmem128Hex (by decide) (by decide +kernel) (by decide)
      (by decide) (by decide) (by decide) (by decide +kernel) place inside
  · exact @readmemh_near 7 2 18 22 20 (65 * 2 ^ 22 / 100) cmem256Hex (by decide) (by decide +kernel) (by decide)
      (by decide) (by decide) (by decide) (by decide +kernel) place inside
  · exact @readmemh_near 8 1 18 22 20 (65 * 2 ^ 22 / 100) cmem512Hex (by decide) (by decide +kernel) (by decide)
      (by decide) (by decide) (by decide) (by decide +kernel) place inside
  · exact @readmemh_near 9 0 16 24 18 (65 * 2 ^ 24 / 100) cmem1024Hex (by decide) (by decide +kernel) (by decide)
      (by decide) (by decide) (by decide) (by decide +kernel) place inside

end ZipVersa.Fft
