import Conform.Unicode.Runs

/-!
# Ages

The version of Unicode that gave a code point its character. What has an age
is what there was in that version, so a later age holds all earlier ones.
-/

namespace Conform

namespace Unicode

namespace Age

/-- The versions in their order: the letter of each in the table, and its names. -/
def names : List (Char × List String) := [
  ('a', ["1.1", "v11"]), ('b', ["2.0", "v20"]), ('c', ["2.1", "v21"]), ('d', ["3.0", "v30"]),
  ('e', ["3.1", "v31"]), ('f', ["3.2", "v32"]), ('g', ["4.0", "v40"]), ('h', ["4.1", "v41"]),
  ('i', ["5.0", "v50"]), ('j', ["5.1", "v51"]), ('k', ["5.2", "v52"]), ('l', ["6.0", "v60"]),
  ('m', ["6.1", "v61"]), ('n', ["6.2", "v62"]), ('o', ["6.3", "v63"]), ('p', ["7.0", "v70"]),
  ('q', ["8.0", "v80"]), ('r', ["9.0", "v90"]), ('s', ["10.0", "v100"]),
  ('t', ["11.0", "v110"]), ('u', ["12.0", "v120"]), ('v', ["12.1", "v121"]),
  ('w', ["13.0", "v130"]), ('x', ["14.0", "v140"]), ('y', ["15.0", "v150"])]

/-- The letter after all versions stands for code points without a character. -/
def runs : Runs := Runs.ofLines [
  "a502d4a30d8fgd18g3h11i14a89d5g2a47da10d5g17a70d9fg8h5g3a2df13j4a2j2z2ai3apz4a7zaza20za44ja7d",
  "f2adadadada18e2fg5h4da12da66da12da41jd2f2d4a53f2a2f2a2f2ia28d2a8h2a2i6f16i4j16k2l2p8za38z2a7",
  "ta39tadz2p2mzb17hb13a10ia9bh3z8a27z4ta5z11g4mpj5hag9j5aoxhala26j5a19d3g3h6la14f2a72d2a5da15d",
  "a30g2a10d5gd14zd30g3d27z2g3h30j18d49fz14i59z2t3k46z2k15zl28z2lzs11z5x31zx2z6x8mpm11p6q2xr8",
  "w10x11tr15qm27pka3ga53l2a18kla5kl2a25j2l5pk2i2hi2pa3za8z2a2z2a22za7zaz3a4z2aga7z2a2z2a3hz8a",
  "z4a2za5z2a21ks2tz2gagza6z4a2z2a22za7za2za2za2z2aza5z4a2z2a3z3jz7a4zaz7a15jtz10a3za7gaza3za22",
  "za7za2za5z2a10za3za3z2az15ag3z2a10mgz7qs6za3za8z2a2z2a22za7za2zga4z2a8jz2a2z2a3z7wa2z4a2za3",
  "j2z2a11gl6z10a2za6z3a3za4z3a2zaza2z3a2z3a3z3a8ha3z4a5z3a3za4z2jz6az14ha12g8z5pa3ta8za3za23z",
  "a10pa5z2xja7za3za4z7a2zj2qz2xz2a2j2z2a10z7uj8rpa2ta8za3za23za10za5z2g2a7za3za4z7a2z6xaza2i2",
  "z2a10zi2yz12spa2wa8za3za23la16ls2ja6jza3za4lrz4r3ar7qa2j2z2a10j6r3j7zwd2zd18z3d24zd9zdz2d7z3",
  "dz4d6zdzd8z6p10z2d3z12a58z4a29z37a2zazua2uazuau6a4ua7ua3zazau2a2ua13ua3z2a5zaza6yza10z2a2m2",
  "z32b72zb33dj2z4b27l4b6dbzb21d3b7dbd3zd15zjdh2j3k4l2z37d34jd5jd2jd7j3d4j6d26j64k4j2a38zmz5mz2",
  "a39f2h2ahm3a90k5a68k5a82k6d7hd63hdzd4z2d7zdzd4z2d39hdzd4z2d31hdzd4z2d7zdzd4z2d7hd7zd23hd31hd",
  "zd4z2d7hd39hd19z2l2h2d28z3h26z6d85qz2q6z2kd630k9d29z3d81p8z7f13xf7xz9xf23z9f20z12f13zf3zf2",
  "z12d93gz2d10z6g10z6d15xd10z6d88tz7d42jz5k70z10g29p2zg12z4g12z4gz3g42z2g5z11h42k2z4h26z6h10k",
  "z3h2g32h28z2h2k63zk29z2k11z6k10z6k14z2p15w2x14z49i76xz3i45x2zj43m3j12m6l52z8l4j56z3j15z3j51",
  "r9z7t43z2t3m8z8k35m4sp2uz5g108h88i7j28p15s4xrlki2a155bj4a90j6a22z2a6z2a38z2a6z2a8zazazaza31",
  "z2a53za15za14z2a6za19z2a3za9za47da23fd6f5g2h2fh7f5jzo4a7fz2a27zh5l8z3a11bcd3f2h4k3lnp3qsxz15",
  "a18d2f7hi4jz15a57d2ghf15hi2jk3a48dij4kq2z4a91d9f12a242f14ada121dfd30f52g2h11i12kl11p7r4sa37",
  "d2z25a11z21a139f20ga150f10a80d8f8a20g2f2hda86d2f12h2f10g8h11jk2g2h16ij10k3j4k10lk19lkl4k24p",
  "a4la4l2a28la35lala4l3aka7l2a7f14a31l3a24la14lh7i4mjml2f28j4f16d256f512g14h6i7j5i4j41p3j5k5",
  "p26z2p32zwp34t3p12up8st25q4t15uh47xh47xi13j3kj3i4j6k2h107k7m2z5h45zmz5mz2h54m2z7hlz14lh23z9",
  "h7zh7zh7zh7zh7zh7zh7zh7zj32h24j4h2j19km10p7r2s5t5uw3x11z34d26zd89z12d214z26d12z4a56d3f3daz",
  "a84f2z2a6f2a94fz5a40jstza94za16d24l3w5h16j20z12f16a29g2za36k12gf15a28g2ha50f15a12g4a47va119",
  "g4a99g2a31gd6582w10g64a20902h22j8k8mq9s21t5w13x3d1165z3d18f2d16fd12fd3fdz9k48j300z20j32l2j18",
  "m8j28p6qmk88z8h23i4j5i2j107l2ql2m2p12l10mp3rtp2q6t2u6x2u5w4z5x2zxzx5z24x3w2pm2lj5h44wz3k10z6",
  "i56z8j69rz8j12z6k28q2t2j84z11jk29z3k78zk11z4k2p31zj55z9j14z2j10z2j4k28p4k67z24k5m23z10l6z2l6",
  "z2l6z9l7zl7zp48q4p2u2w4z4q80k46z2k10z6b11172z12k23z4k49z4b2048a6702m2f59k3z2h106z38a7z12a5z5",
  "da25za5zaza2za2za108l16xz16a365x16a64z2a54z7xe32a12fgx2f16h10z6a4j3p7q2a21f2g2a10za19za4z4a3",
  "faza135z2aza94f2a94z3a6z2a6z2a6z2a3z3a7za7z10d3ca3g12zg26zg19zg2zg15z2g14z34g123z5g3z4g45z3",
  "g9h75p2r2zj12wz3pz47j46z130j29z3j49z15p28z4e31pe4z9s3e27z5p43z5g30zgh36z4h14z42e38g2e38g80z2",
  "g10z6r36z4r36z4p40z8p52z11px11zx15zx7zx2zx11zx15zx7zx2z67p311z9p22z10p8z24x6zx42zx9z69g6z2gz",
  "g44zg2z3gz2gk22zk9p63z8p9z48q19zq2z5q5i26k2z3ij26z5jz64m56z4q2m2q16z2q46h4zh2z5h8zh3zh27t2z2",
  "h3z4h9tz7h9z7k32p32z32p39z4p12z9k54z3k29z2k27z5k8p18z7p4z12p7z80k73z55q51z13q51z7q6t40z8t10",
  "z294k31zw42zw3z2w2z75y3t40z8t42z22x26z38w28z20u23z9l78z4l30x6z9pk66xz10tz2m25z7m10z6m53zm14",
  "t3wz8p39z9m73q4pw2m10pq5zp20z11p18zp43ry3z62q7zqzq4zq15zq11z6p59z5p10z6qp3zp8z2p2z2p22zp7zp2",
  "zp5ztp9z2p2z2p3z2qz6pz5p7z2p7z3p5z139r90wrzrtuw2z30p72z8p10z166p54z2p18q20z34p69z11p10z6r13",
  "z19m56uxz6m10z54q26tz2q15z4q16x7z185t60z100p83z12pw7z2wz2w8zw2zw30zw2z2w12z9w10z70u8z2u46z2",
  "u11z27s72z8s52u2s23ts5z13x16p57z7y10z246r9zr45zr14z10r29z3r32z2r22zr14z73s7zs2zs44z3szs2zs9",
  "z8s10z6t6zt2zt37zt2zt6z7t10z310t25z7y17zy41z3y28z86wz15u50z13ui879p42qz102i99p12zi4pz11q196",
  "z2636x99z13k1071yu9y29z4010q583z8633l569z7p31zp10z4p2x79zx10z6p30z2p6z10p70z10p10zp7zp21z5",
  "p19z688t91z101m69u6z4um47u9z7m17z64rsu2wz11w2z14r6125t5u6z8r755w483z42w9z8935x4zx7zx2zl2s285",
  "x4z15yz29u3z2yz14u4z8s396z2308p107z5p13z3p9z7p10z2p8z4700x46z2x23z9x116z60e246z10e39z2je180",
  "q11x2z21h70z122y20z12t20z12g87z9i18t7z135e85ze71ze2z2ez2e2z2e4ze12zeze4ge2ze65ze4z2e8ze7ze28",
  "ze4ze5zez3e7ze338h2z2e290i2z2e50q652z15q5zq15z1104x31z6y6z213r7zr17z2r7zr2zr5z5y62z33yz112",
  "u45z3u14z2u10z4u2z320x31z17u58z5uz464y42z742x7zx4zx2zx15zp197z2p16z41r75uz4r10z4r2z785t68z76",
  "u61z194m4zm27zm2zmz2mzm10zm4zmzmz6mz4mzmzmzm3zm2zmz2mzmzmzmzmzm2zmz2m4zm7zm4zm4zmzm10zm17z5",
  "m3zm5zm17z52m2z270j44z4j100z12l15z2l14pzl15zl15p22z10k11p2w3k31tlkl11klkl2kl3kl3k5l8kl7kl10",
  "m2uw3l9klk2l2kl10k4l2kl10r18wz56l26kl2z13k34l9rz4k9z7l2z14s6z154l33p12q3l6pl70pq2l20p12l37p",
  "l5p4q5p12l17p7q8l63plpl182pl4p2ql62p2m4p7q5l24p18rp41rp86l5ml16ml3mlmlmlml3ml6m2l4mlm2l4ml12",
  "p2q2l11p48l70p10qr2s2uw2z4yx3p13z3p4r3s2tuw2z3l116y3z4y5p85t4yz6u12z4xz15p12z4p56z8p10z6p40",
  "z8p30z2w2z78s12wu3q9r6sr8s8rs2r12ur12st3r15s13t5uwt4w2xtut4q5r13s6t11w2u6w3u2t10u6qt2u8wxu3",
  "s23t25u84z12t14z2u4wy3u3x2z3u3w4y2z7u6w19x4y3w7x4y3zyw3x3z8y2w7x3y2z4x8yz7x7y2z7w147zw55z37",
  "w10z1028b2e42711w7x2z32k4149x4yz6l222z2q5762z14s7473z3103e542z1504b2w4939z5y4192z56398b2",
  "z65534b2z65534b2z65534b2z65534b2z65534b2z65534b2z65534b2z65534b2z65534b2z65534b2zez30e96z128",
  "g240z65038b131074"]

/-- The letter of the version that goes by a name. -/
def letter? (name : String) : Option Char :=
  (names.find? fun entry => entry.2.contains name).map Prod.fst

/-- Whether a character is as old as the version with a letter, or older. -/
def holds (letter c : Char) : Bool := runs.letterAt c.toNat ≤ letter

end Age

end Unicode

end Conform
