import Conform.Unicode.Runs

/-!
# Text boundaries

What code points do to the boundaries of graphemes, words and sentences. The
letter `x` in a table stands for code points that do nothing to them.
-/

namespace Conform

namespace Unicode

/-- What a text is cut into. -/
inductive Break where
  | grapheme
  | word
  | sentence
  deriving DecidableEq, Repr

namespace Break

def graphemeRuns : Runs := Runs.ofLines [
  "k10fk2ck18x95k33x13kx594e112x275e7x263e45xexe2xe2xex56p6x10e11xkx46e21x16ex101e7pxe6x2e2xe4",
  "x33pxex30e27x91e11x58e9x9ex24e4xe9xe3xe5x43e3x52p2x6e8x42e24pe32sx54esexs3e8s4es2xe7x10e2x29",
  "es2x56exes2e4x2s2x2s2ex9ex10e2x26ex2e2sx56exs3e2x4e2x2e3x3ex30e2x3ex11e2sx56exs3e5xe2sxs2e",
  "x20e2x22e6xes2x56exe2se4x2s2x2s2ex7e3x10e2x30ex59eses2x3s3xs3ex9ex40es3ex55exe3s4xe3xe4x7e2",
  "x11e2x29es2x56exses2es2xes2xs2e2x7e2x11e2x15sx12e2s2x55e2xes2e4xs3xs3epx8ex10e2x29es2x70ex4e",
  "s2e3xexs7ex18s2x61exse7x12e8x98exse9x11e7x73e2x27exexex4s2x49e14se5xe2x5e11xe36x9ex102e4se6x",
  "e2s2e2x23s2e2x4e3x16e4x13exse2x6ex15ex98l96u72t88x349e3x946e3sx28e2sx29e2x30e2x64e2se7s8es2",
  "e11x9ex45e3kex117e2x34ex118e3s4e2s3x4s2es6e3x219e2s2ex57sese7xexex2e8s6e10x2ex48e31x49e4sx47",
  "e7ses5es2x38e9x12e2sx30se4s2e2se3x56ese2s3ese3s2x48s8e8s2e2x152e3xe13se7x4ex6ex2se2x198e64",
  "x523kezk2x24k7x49k16x96e33x3070e3x141ex96e32x554e6x105e2x30164e4xe10x32e2x80e2x272ex3ex4ex23",
  "s2e2sx4ex83s2x50s16e2x26e18x13ex38e8x25e11s2x12l29x3e3sx47es2e4s2e2s3x36ex67e6s2e2s2e2x12ex8",
  "esx46ex51exe3x2e2x5e2xex41se2s2x5sex236s2es2es2xsex18vw27vw27vw27vw27vw27vw27vw27vw27vw27v",
  "w27vw27vw27vw27vw27vw27vw27vw27vw27vw27vw27vw27vw27vw27vw27vw27vw27vw27vw27vw27vw27vw27vw27v",
  "w27vw27vw27vw27vw27vw27vw27vw27vw27vw27vw27vw27vw27vw27vw27vw27vw27vw27vw27vw27vw27vw27vw27v",
  "w27vw27vw27vw27vw27vw27vw27vw27vw27vw27vw27vw27vw27vw27vw27vw27vw27vw27vw27vw27vw27vw27vw27v",
  "w27vw27vw27vw27vw27vw27vw27vw27vw27vw27vw27vw27vw27vw27vw27vw27vw27vw27vw27vw27vw27vw27vw27v",
  "w27vw27vw27vw27vw27vw27vw27vw27vw27vw27vw27vw27vw27vw27vw27vw27vw27vw27vw27vw27vw27vw27vw27v",
  "w27vw27vw27vw27vw27vw27vw27vw27vw27vw27vw27vw27vw27vw27vw27vw27vw27vw27vw27vw27vw27vw27vw27v",
  "w27vw27vw27vw27vw27vw27vw27vw27vw27vw27vw27vw27vw27vw27vw27vw27vw27vw27vw27vw27vw27vw27vw27v",
  "w27vw27vw27vw27vw27vw27vw27vw27vw27vw27vw27vw27vw27vw27vw27vw27vw27vw27vw27vw27vw27vw27vw27v",
  "w27vw27vw27vw27vw27vw27vw27vw27vw27vw27vw27vw27vw27vw27vw27vw27vw27vw27vw27vw27vw27vw27vw27v",
  "w27vw27vw27vw27vw27vw27vw27vw27vw27vw27vw27vw27vw27vw27vw27vw27vw27vw27vw27vw27vw27vw27vw27v",
  "w27vw27vw27vw27vw27vw27vw27vw27vw27vw27vw27vw27vw27vw27vw27vw27vw27vw27vw27vw27vw27vw27vw27v",
  "w27vw27vw27vw27vw27vw27vw27vw27vw27vw27vw27vw27vw27vw27vw27vw27vw27vw27vw27vw27vw27vw27vw27v",
  "w27vw27vw27vw27vw27vw27vw27vw27vw27vw27vw27vw27vw27vw27vw27vw27vw27vw27vw27vw27vw27vw27vw27v",
  "w27vw27vw27vw27vw27vw27vw27vw27vw27vw27vw27vw27vw27vw27vw27vw27vw27vw27vw27vw27vw27vw27vw27v",
  "w27vw27vw27vw27vw27vw27vw27vw27vw27vw27vw27vw27vw27vw27vw27vw27vw27vw27vw27vw27vw27vw27vw27v",
  "w27vw27vw27vw27vw27vw27vw27vw27vw27vw27vw27vw27vw27vw27vw27vw27vw27vw27vw27vw27vw27vw27vw27v",
  "w27vw27vw27vw27vw27vw27vw27vw27vw27vw27vw27vw27vw27vw27vw27vw27vw27vw27vw27vw27vw27vw27x12",
  "u23x4t49x8994ex737e16x16e16x207kx158e2x80k12x513ex226ex149e5x1670e3xe2x5e4x40e3x4ex165e2x573",
  "e4x387e2x80e3x70e11x49e4x122sesx53e15x41ex2e2x10e3sx45s3e4s2e2x2px4ex10px50e3x36e5se8x16s2",
  "x44ex12e2sx48s3e9s2xp2x5e4xsex92s3e3s2ese2x6ex2ex157es3e8x21e2s2x55e2xeses4x2s2x2s3x9ex10s2",
  "x2e7x3e5x192s3e8s2e3sex23ex81es2e6ses2ese2se2x235es2e4x2s4e2se2x27e2x82s3e8s2ese2x106eses2e6",
  "sex101e3x2e4se5x256s3e9se2x245es5xs2x2e2sepspsex141s3e4x2e2s4ex3sx28e10x40e6spe4x8ex9e6s2e3",
  "x40p6e13se2x405se7xe6sex82e22xse7se2se2x122e6x3exe2xe7pex66s5xe2xs2esex347e2s2x9e2psx48s2e5",
  "x3s2esex5357k16ex6e15x13978e5x59e7x1048exs55x7e4x81ex11s2x19627e2xk4x4700e46x2e23x542ese3x3s",
  "e5k8e8x2e7x30e4x148e3x1979e55x4e50x8ex14ex22e5xe15x1360e7xe17x2e7xe2xe5x100ex160e7x375ex61e4",
  "x508e4x992e7x109e7x2203r26x507e5x789504k32e96k128e240k3600x192512"]

def wordRuns : Runs := Runs.ofLines [
  "x10fy2cx18wxdx4sx4mxbxn10imx5l26x4uxl26x10yx36lx2ox7lxix2lx5l23xl31xl480x6l34e112l5xl2x2l4ml",
  "x6lil3xlxl20xl83xl139xe7l166xl38x2l4xlil41mlx6e45xexe2xe2xex8h27x4h4lix11o6x6m2x2e11xox3l43",
  "e21n10xnmxl2el99xle7oxe6l2e2xe4l2n10l3x2lx15olel30e27x2l89e11lx14n10l33e9l2x2mxlx2ex2l22e4l",
  "e9le3le5x18l25e3x4l11x5l24xl6xo2x6e8l42e24oe33l54e3le18le7l10e2x2n10xl16e3xl8x2l2x2l22xl7xl",
  "x3l4x2ele7x2e2x2e3lx8ex4l2xl3e2x2n10l2x10lxex2e3xl6x4l2x2l22xl7xl2xl2xl2x2exe5x4e2x2e3x3ex7",
  "l4xlx7n10e2l3ex11e3xl9xl3xl22xl7xl2xl5x2ele8xe3xe3x2lx15l2e2x2n10x9le6xe3xl8x2l2x2l22xl7xl2x",
  "l5x2ele7x2e2x2e3x7e3x4l2xl3e2x2n10xlx16elxl6x3l3xl4x3l2xlxl2x3l2x3l3x3l12x4e5x3e3xe4x2lx6e",
  "x14n10x16e5l8xl3xl23xl16x2ele7xe3xe4x7e2xl3x2lx2l2e2x2n10x16le3xl8xl3xl23xl10xl5x2ele7xe3xe4",
  "x7e2x6l2xl2e2x2n10xl2ex12e4l9xl3xl41e2le7xe3xe4lx5l3ex7l3e2x2n10x10l6xe3xl18x3l24xl9xlx2l7x3",
  "ex4e6xexe8x6n10x2e2x61ex2e7x12e8xn10x87ex2e9x11e7xn10x38lx23e2x6n10x11exexex4e2l8xl36x4e20x",
  "e2l5e11xe36x9ex100e20xn10x12e4x4e3xe3x2e7x3e4x13e12xen10e4x2l38xlx5lx2l43xl333xl4x2l7xlxl4x2",
  "l41xl4x2l33xl4x2l7xlxl4x2l15xl57xl4x2l67x2e3x32l16x16l86x2l6x3l620x2l17wl26x5l75x3l11x7l18e4",
  "x9l19e3x11l18e2x12l13xl3xe2x64e32x9ex2n10x33e3oen10x6l89x7l5e2l34elx5l70x10l31xe12x4e12x10",
  "n10x128n10x38l23e5x57e10xe29x2en10x6n10x22e31x49e5l47e17l8x3n10x17e9x12e3l30e13l2n10l44e14",
  "x12l36e20x8n10x3l3n10l36x2l9x7l43x2l3x16e3xe21l4el6el2e3lx5l192e64l278x2l6x2l38x2l6x2l8xlxlx",
  "lxl31x2l53xl7xlx3l3xl7x3l4x2l6x4l13x5l3xl7x3w7xw3xezo2x8b2x10bx2iy2o5ux15u2x3mx15ux10wo5xo10",
  "xlx13lx16l13x51e33x17lx4lx2l10xlx3l5x6lxlxlxl4xl11x2l4x5l5x4lx17l41x813l52x1814l229x6l4e3l2",
  "x12l38xlx5lx2l56x7lx15el23x9l7xl7xl7xl7xl7xl7xl7xl7xe32x47lx464wx4lx36e6xk5x5l2x92e2k2x3k91x",
  "k4x5l43xl94x17l32x48k16x208k47xk88x27816l1165x67l46x2l269x3l16n10l2x20l47e4xe10xl31e2l80e2",
  "x22l195x5l2xlxl5x24l16el3el4el23e5x4ex19l52x12e2l50e18x10n10x6e18l6x3lxl2en10l28e8x2l23e13",
  "x12l29x3e4l47e14x14ln10x11ex10n10x6l41e14x9l3el8e2x2n10x33e3x50exe3x2e2x5e2xex30l11e5x2l3e2",
  "x10l6x2l6x2l6x9l7xl7xl58x6l115e8xe2x2n10x6l11172x12l23x4l49x8964l7x12l5x5heh10xh13xh5xhxh2x",
  "h2xh10l98x33l363x18l64x2l54x40l12x4e16mx2imx11e16x3u2x24u3mxbxmix26l5xl135x2ox7bx4mxbxn10im",
  "x5l26x4uxl26x11k56e2l31x3l6x2l6x2l6x2l3x28o3x4l12xl26xl19xl2xl15x2l14x34l123x69l53x136ex130",
  "l29x3l49x15ex31l32x13l30x5l38e5x5l30x2l36x4l8xl5x42l158x2n10x6l36x4l36x4l40x8l52x12l11xl15x",
  "l7xl2xl11xl15xl7xl2x67l311x9l22x10l8x24l6xl42xl9x69l6x2lxl44xl2x3lx2l23x10l23x9l31x65l19xl2",
  "x10l22x10l26x70l56x6l2x64le3xe2x5e4l4xl3xl29x2e3x4ex32l29x3l29x35l8xl28e2x25l54x10l22x10l19",
  "x13l18x110l73x55l51x13l51x13l36e4x8n10x326l42xe2x3l2x75e3l29x10lx8l22e11x31l18e4x42l21x27l23",
  "x9e3l53e15x31n10el2e2lx9e4l45e11x2ox4ex10ox2l25x7n10x6e3l36e14xn10x4le2lx8l35ex2lx9e3l48e14",
  "l4x4e4xe2n10lxlx35l18xl25e12x6el2ex62l7xlxl4xl15xl10x7l47e12x5n10x6e4xl8x2l2x2l22xl7xl2xl5x",
  "e2le7x2e2x2e3x2lx6ex5l5e2x2e7x3e5x139l53e18l4x5n10x4el3x30l48e20l2xlx8n10x166l47e7x2e9x23l4",
  "e2x34l48e17x3lx11n10x38l43e13lx7n10x83e15x4n10x198l44e15x101l64n10x21l8x2lx2l8xl2xl24e6xe2x2",
  "e4lele2x12n10x70l8x2l39e7x2e7lxlex27le10l40e7le4x8ex8le11l46e16x3lx18l73x263l9xl37e8xe8lx15",
  "n10x24l30x2e22xe14x73l7xl2xl38e6x3exe2xe7lex8n10x6l6xl2xl32e5xe2xe5lx7n10x310l19e4x9e2lel13x",
  "l34e7x3e5x13n10x86lx79l922x102l111x17l196x2636l97x15l1072o16el6e15x4010l583x8633l569x7l31x",
  "n10x6l79xn10x6l30x2e5x11l48e7x9l4x12n10x9l21x5l19x688l64x128l75x4ele55x7e4l13x64l2xlex11e2",
  "x16382k4xk7xk2xkx287k3x50kx14k4x2712l107x5l13x3l9x7l10x3e2xo4x4700e46x2e23x542e5x3e6o8e8x2e7",
  "x30e4x148e3x443l85xl71xl2x2lx2l2x2l4xl12xlxl7xl65xl4x2l8xl7xl28xl4xl5xlx3l7xl340x2l25xl25x",
  "l31xl25xl31xl25xl31xl25xl31xl25xl8x2n50x512e55x4e50x8ex14ex22e5xe15x1104l31x6l6x213e7xe17x2",
  "e7xe2xe5x5l62x33ex112l45x3e7l7x2n10x4lx321l30ex17l44e4n10x470l28e4n10x742l7xl4xl2xl15xl197",
  "x11e7x41l68e7lx4n10x1190l4xl27xl2xlx2lxl10xl4xlxlx6lx4lxlxlxl3xl2xlx2lxlxlxlxlxl2xlx2l4xl7x",
  "l4xl4xlxl10xl17x5l3xl5xl17x628l26x6l26x6l26x92r26x507e5x2032n10x787463ox30e96x128e240x196112"]

def sentenceRuns : Runs := Runs.ofLines [
  "x9pfp2cx18ptbx4b3x2i2axn10ix4txu26bxbx3l26bxbx7sx26px9lbxmx7lx4lbx4u23xu7l24xl8ululululululu",
  "lululululululululululululululululululululul2ulululululululul2ulululululululululululululululu",
  "lulululululululu2lulul3u2lulu2lu3l2u4lu2lu3l3u2lu2lululu2lul2ulu2lu3lulu2l2oul3o4u2lu2lu2lul",
  "ululululululul2ululululululululul2u2lulu3lululululululululululululululululululululululululul",
  "ulululul7u2lu2l2ulu4lulululul69ol36o7l2x4o12x14l5x7oxox17e112ululoxulx2l4xux6uxu3xuxu2lu17x",
  "u9l35ul2u3l3ulululululululululululul5ulxulu2l2u51l48ulululululululululululululululululxe7ulu",
  "lulululululululululululululululululululululululululu2lulululululul2ululululululululululululu",
  "lulululululululululululululululululululululululululululululululululululxu38x2ox3ix2l41tx7e45",
  "xexe2xe2xex8o27x4o5x12m6x6i2x2e11xmt3o43e21n10xn2xo2eo99toe7mxe6o2e2xe4o2n10o3x2ot3x12moeo30",
  "e27x2o89e11ox14n10o33e9o2x2itox2ex2o22e4oe9oe3oe5x9txtx3t2xo25e3x4o11x5o24xo6xm2x6e8o42e24m",
  "e33o54e3oe18oe7o10e2t2n10xo16e3xo8x2o2x2o22xo7xox3o4x2eoe7x2e2x2e3ox8ex4o2xo3e2x2n10o2x10oxe",
  "x2e3xo6x4o2x2o22xo7xo2xo2xo2x2exe5x4e2x2e3x3ex7o4xox7n10e2o3ex11e3xo9xo3xo22xo7xo2xo5x2eoe8x",
  "e3xe3x2ox15o2e2x2n10x9oe6xe3xo8x2o2x2o22xo7xo2xo5x2eoe7x2e2x2e3x7e3x4o2xo3e2x2n10xox16eoxo6",
  "x3o3xo4x3o2xoxo2x3o2x3o3x3o12x4e5x3e3xe4x2ox6ex14n10x16e5o8xo3xo23xo16x2eoe7xe3xe4x7e2xo3x2o",
  "x2o2e2x2n10x16oe3xo8xo3xo23xo10xo5x2eoe7xe3xe4x7e2x6o2xo2e2x2n10xo2ex12e4o9xo3xo41e2oe7xe3x",
  "e4ox5o3ex7o3e2x2n10x10o6xe3xo18x3o24xo9xox2o7x3ex4e6xexe8x6n10x2e2x13o48eo2e7x5o7e8xn10x39o2",
  "xoxo5xo24xoxo10eo2e9ox2o5xoxe7xn10x2o4x32ox23e2x6n10x11exexeb4e2o8xo36x4e20xe2o5e11xe36x9e",
  "x57o43e20on10t2x4o6e4o4e3oe3o2e7o3e4o13e12oen10e4x2u38xux5ux2o43xlo332xo4x2o7xoxo4x2o41xo4x2",
  "o33xo4x2o7xoxo4x2o15xo57xo4x2o67x2e3x2tx4t2x23o16x16u86x2l6x3o620xto17po26b2x3o75x3o11x7o18",
  "e4x9o19e3t2x9o18e2x12o13xo3xe2x12o52e32x3ox4oex2n10x24itx4itxe3men10x6o89x7o5e2o34eox5o70x10",
  "o31xe12x4e12x8t2n10o30x2o5x11o44x4o26x6n10x38o23e5x4o53e10xe29x2en10x6n10x13ot4x4e31x49e5o47",
  "e17o8x3n10t2x2t2x11e9x9t2xe3o30e13o2n10o44e14x12o36e20x3t2x3n10x3o3n10o36t2l9x7o43x2o3x16e3x",
  "e21o4eo6eo2e3ox5l192e64ululululululululululululululululululululululululululululululululululu",
  "lulululululululululululululululululululululululululululululululululululululululul9ululululul",
  "ulululululululululululululululululululululululululululululululululululululululululululul9u8",
  "l6x2u6x2l8u8l8u8l6x2u6x2l8xuxuxuxul8u8l14x2l8u8l8u8l8u8l5xl2u5xlx3l3xl2u5x3l4x2l2u4x4l8u5x5",
  "l3xl2u5x3p11me2m2x3i2x3b8x4ax3s2m5px9b2xt2x7b2t3x21pm5xm10xlx11b2lx13b2xl13x51e33x17ux4ux2l",
  "u3l2u3lxux3u5x6uxuxuxu4xlu4lo4lx2l2u2x5ul4x4lx17u16l16o3ulo4x383b4x29b2x395u26l26x625b6x7b14",
  "x79b2x31b10x403b22x63b4x32b2x514u48l48ulu3l2ulululu4lul2ul8u3lululululululululululululululul",
  "ulululululululululululululululululululululululululululululululululul2x6ulule3ulx12l38xlx5lx2",
  "o56x7ox15eo23x9o7xo7xo7xo7xo7xo7xo7xo7xe32b14x14b2x2b10x4tox12tx5bx16t2b8x419pitx2o3b10x2b8x",
  "b3xo9e6xo5x2o5x4o86x2e2x2o3xo90xo4x5o43xo94x17o32x48o16x512o6592x64o22157x67o46xto269xt2o16",
  "n10o2x20ulululululululululululululululululululululululoe4xe10xoulululululululululululululul3",
  "e2o80e2xtx3tx31o9x2ululululululul3ululululululululululululululululululululululululululululul",
  "ulul10ululu2lululululox2ululoulul3ululululululululululu5lu5lulululululululu4lulx5ulxlxlulul",
  "x24l3ulol3o7eo3eo4eo23e5x4ex19o52x2t2x8e2o50e18x8t2n10x6e18o6x3oxo2en10o28e8xto23e13x12o29x3",
  "e4o47e14x7t2x5on10x6o5eo10n10o5xo41e14x9o3eo8e2x2n10x3t3o23x3oe3o50eoe3o2e2o5e2oeox24o3x2o11",
  "e5t2o3e2x10o6x2o6x2o6x9o7xo7xl43xl14x6l80o35e8te2x2n10x6o11172x12o23x4o49x8452o366x2o106x38",
  "l7x12l5x5oeo10xo13xo5xoxo2xo2xo108x33o363b2x16o64x2o54x40o12x4e16i2xix3b2x7e16xi2x2b16x2b2x7",
  "i2ax2it2ib6x4ix12o5xo135x2mxtx6b2x2i2axn10ix4txu26bxbx3l26bxbxb2tb2ixo56e2o31x3o6x2o6x2o6x2",
  "o3x28m3x4o12xo26xo19xo2xo15x2o14x34o123x69o53x136ex130o29x3o49x15ex31o32x13o30x5o38e5x5o30x2",
  "o36x4o8xo5x42u40l40o78x2n10x6u36x4l36x4o40x8o52x12u11xu15xu7xu2xl11xl15xl7xl2x67o311x9o22x10",
  "o8x24lo2l3xl42xl9x69o6x2oxo44xo2x3ox2o23x10o23x9o31x65o19xo2x10o22x10o26x70o56x6o2x64oe3xe2",
  "x5e4o4xo3xo29x2e3x4ex22t2x8o29x3o29x35o8xo28e2x25o54x10o22x10o19x13o18x110o73x55u51x13l51x13",
  "o36e4x8n10x326o42xe2x3o2x75e3o29x10ox8o22e11x4t5x22o18e4t4x38o21x27o23x9e3o53e15t2x29n10eo2",
  "e2ox9e4o45e11x2mt4ex10mx2o25x7n10x6e3o36e14xn10xt3oe2ox8o35ex2ox9e3o48e14o4t2x2e4te2n10oxox",
  "t2x32o18xo25e12t2xt2xeo2ex62o7xoxo4xo15xo10tx6o47e12x5n10x6e4xo8x2o2x2o22xo7xo2xo5xe2oe7x2e2",
  "x2e3x2ox6ex5o5e2x2e7x3e5x139o53e18o4t2x3n10x4eo3x30o48e20o2xox8n10x166o47e7x2e9xt2x5t15o4e2",
  "x34o48e17t2xox11n10x38o43e13ox7n10x54o27x2e15x4n10x2t3xo7x185o44e15x101u32l32n10x21o8x2ox2o8",
  "xo2xo24e6xe2x2e4oeoe2txtx9n10x70o8x2o39e7x2e7oxoex27oe10o40e7oe4x3t2x3ex8oe11o46e16xt2ox18",
  "o73x263o9xo37e8xe8ot2x13n10x24o30x2e22xe14x73o7xo2xo38e6x3exe2xe7oex8n10x6o6xo2xo32e5xe2xe5o",
  "x7n10x310o19e4t2x7e2oeo13xo34e7x3e5t2x11n10x86ox79o922x102o111x17o196x2636o97x15o1072m16eo6",
  "e15x4010o583x8633o569x7o31xn10x4t2o79xn10x6o30x2e5tx10o48e7t2x7o4tx11n10x9o21x5o19x688u32l32",
  "x24tx103o75x4eoe55x7e4o13x64o2xoex11e2x14o6136x8o1238x42o9x8935o4xo7xo2xo291x15ox29o3x2ox14",
  "o4x8o396x2308o107x5o13x3o9x7o10x3e2tm4x4700e46x2e23x542e5x3e6m8e8x2e7x30e4x148e3x443u26l26",
  "u26l7xl18u26l26uxu2x2ux2u2x2u4xu8l4xlxl7xl11u26l26u2xu4x2u8xu7xl26u2xu4xu5xux3u7xl26u26l26",
  "u26l26u26l26u26l26u26l26u26l28x2u25xl25xl6u25xl25xl6u25xl25xl6u25xl25xl6u25xl25xl6ulx2n50",
  "x512e55x4e50x8ex14ex3tx18e5xe15x1104l10ol20x6l6x213e7xe17x2e7xe2xe5x5l62x33ex112o45x3e7o7x2",
  "n10x4ox321o30ex17o44e4n10x470o28e4n10x742o7xo4xo2xo15xo197x11e7x41u34l34e7ox4n10x1190o4xo27x",
  "o2xox2oxo10xo4xoxox6ox4oxoxoxo3xo2xox2oxoxoxoxoxo2xox2o4xo7xo4xo4xoxo10xo17x5o3xo5xo17x628",
  "u26x6u26x6u26x1260b3x1399n10x1030o42720x32o4154x6o222x2o5762x14o7473x3103o542x1506o4939x5",
  "o4192x711761mx30e96x128e240x196112"]

def runs : Break → Runs
  | grapheme => graphemeRuns
  | word => wordRuns
  | sentence => sentenceRuns

/-- The values: the letter of each in the table, and its names in lower case without separators. -/
def names : Break → List (Char × List String)
  | grapheme => [
    ('c', ["cr"]), ('k', ["cn", "control"]), ('e', ["ex", "extend"]), ('l', ["l"]),
    ('f', ["lf"]), ('v', ["lv"]), ('w', ["lvt"]), ('p', ["pp", "prepend"]),
    ('r', ["regionalindicator", "ri"]), ('s', ["sm", "spacingmark"]), ('t', ["t"]),
    ('u', ["v"]), ('z', ["zwj"])]
  | word => [
    ('l', ["aletter", "le"]), ('c', ["cr"]), ('d', ["doublequote", "dq"]),
    ('u', ["ex", "extendnumlet"]), ('e', ["extend"]), ('o', ["fo", "format"]),
    ('h', ["hebrewletter", "hl"]), ('k', ["ka", "katakana"]), ('f', ["lf"]),
    ('b', ["mb", "midnumlet"]), ('i', ["midletter", "ml"]), ('m', ["midnum", "mn"]),
    ('y', ["newline", "nl"]), ('n', ["nu", "numeric"]), ('r', ["regionalindicator", "ri"]),
    ('s', ["singlequote", "sq"]), ('w', ["wsegspace"]), ('z', ["zwj"])]
  | sentence => [
    ('a', ["at", "aterm"]), ('b', ["cl", "close"]), ('c', ["cr"]), ('e', ["ex", "extend"]),
    ('m', ["fo", "format"]), ('o', ["le", "oletter"]), ('f', ["lf"]), ('l', ["lo", "lower"]),
    ('n', ["nu", "numeric"]), ('i', ["sc", "scontinue"]), ('s', ["se", "sep"]), ('p', ["sp"]),
    ('t', ["st", "sterm"]), ('u', ["up", "upper"])]

/-- The letter of the value that goes by a name. -/
def letter? (b : Break) (name : String) : Option Char :=
  (b.names.find? fun entry => entry.2.contains name).map Prod.fst

/-- Whether a character has the value with a letter. -/
def holds (b : Break) (letter c : Char) : Bool := b.runs.letterAt c.toNat == letter

end Break

end Unicode

end Conform
