import Conform.Unicode.Runs

/-!
# Binary properties

Code points with a yes-or-no property, as alternating runs: `n` for the code
points without it, `y` for those with it.
-/

namespace Conform

namespace Unicode

namespace Property

/-- The property `ASCII_Hex_Digit`. -/
def asciiHexDigit : Runs := Runs.ofLines [
  "n48y10n7y6n26y6n1114009"]

/-- The property `Alphabetic`. -/
def alphabetic : Runs := Runs.ofLines [
  "n65y26n6y26n47yn10yn4yn5y23ny31ny458n4y12n14y5n7ynyn86yn42y5ny2n2y4nyn6yny3nyny20ny83ny139n8",
  "y166ny38n2yn6y41n39y14nyny2ny2nyn8y27n4y4n29y11n5y56ny7n14y102ny8n4y8n4y3n10y3n2yn16y48n13",
  "y101n24y33n9y2n4yn5y24n2y19n19y25n7y11n5y24ny6n17y42n10y12n3y7n6y76ny16ny3n4y15n13y19ny8n2y2",
  "n2y22ny7nyn3y4n3y8n2y2n2y2nyn8yn4y2ny5n12y2n10yn4y3ny6n4y2n2y22ny7ny2ny2ny2n4y5n4y2n2y2n4yn7",
  "y4nyn17y6n11y3ny9ny3ny22ny7ny2ny5n3y9ny3ny2n3yn15y4n21y4n4y3ny8n2y2n2y22ny7ny2ny5n3y8n2y2n2",
  "y2n9y2n4y2ny5n13yn16y2ny6n3y3ny4n3y2nyny2n3y2n3y3n3y12n4y5n3y3ny3n3yn6yn40y13ny3ny23ny16n3y8",
  "ny3ny3n8y2ny3n2yn2y4n28y4ny8ny3ny23ny10ny5n3y8ny3ny3n8y2n6y2ny4n13y3n12y13ny3ny41n2y8ny3ny3n",
  "yn5y4n7y5n22y6ny3ny18n3y24ny9nyn2y7n8y6nyny8n18y2n13y58n5y7n6yn51y2nyny5ny24nyny19ny3n2y5ny",
  "n6yn14y4n32yn63y8ny36n4y19n4y16ny36n67y55nyn2y5n16y64n10y4n2y38nyn5yn2y43ny333ny4n2y7nyny4n2",
  "y41ny4n2y33ny4n2y7nyny4n2y15ny57ny4n2y67n37y16n16y86n2y6n3y620n2y17ny26n5y75n3y11n7y20n11y21",
  "n12y20n12y13ny3ny2n12y52n2y19n14yn4yn67y89n7y43n5y70n10y31ny12n4y9n23y30n2y5n11y44n4y26n54",
  "y28n4y63n2y20n50yn23y2n11y3n49y52ny15ny8n51y42n2y4n10y44ny11n14y55n22y3n10y36n2y9n7y43n2y3",
  "n41y4ny6ny2n3yn5y192n39y14n11y278n2y6n2y38n2y6n2y8nynynyny31n2y53ny7nyn3y3ny7n3y4n2y6n4y13n5",
  "y3ny7n116yn13yn16y13n101yn4yn2y10nyn3y5n6ynynyny4ny11n2y4n5y5n4yn17y41n813y52n1814y229n6y4n3",
  "y2n12y38nyn5yn2y56n7yn16y23n9y7ny7ny7ny7ny7ny7ny7ny7ny32n47yn469y3n25y9n7y5n2y5n4y86n6y3ny90",
  "ny4n5y43ny94n17y32n48y16n512y6592n64y22157n67y46n2y269n3y16n10y2n20y47n5y8n3y113n39y9n2y103",
  "n2y64n5y2nyny5n24y20ny33n24y52n12y68nyn44y6n3yny3n10y33n5y35n13y29n3y51ny12n15yn16y16n10y5n",
  "y55n9y14n18y23n3y69nynyn24y3n2y16n2y4n11y6n2y6n2y6n9y7ny7ny43ny14n6y123n21y11172n12y23n4y49",
  "n8452y366n2y106n38y7n12y5n5y12ny13ny5nyny2ny2ny108n33y363n18y64n2y54n40y12n116y5ny135n36y26",
  "n6y26n11y89n3y6n2y6n2y6n2y3n35y12ny26ny19ny2ny15n2y14n34y123n69y53n267y29n3y49n47y32n13y30n5",
  "y43n5y30n2y36n4y8ny5n42y158n18y36n4y36n4y40n8y52n12y11ny15ny7ny2ny11ny15ny7ny2n67y311n9y22",
  "n10y8n24y6ny42ny9n69y6n2yny44ny2n3yn2y23n10y23n9y31n65y19ny2n10y22n10y26n70y56n6y2n64y4ny2n5",
  "y8ny3ny29n42y29n3y29n35y8ny28n27y54n10y22n10y19n13y18n110y73n55y51n13y51n13y40n344y42ny2n3y2",
  "n78y29n10yn8y22n42y18n46y21n27y23n9y70n43y5n10y57n9yn13y25n23y51n17y4n8y35n3yn9y64ny4n9y2n10",
  "ynyn35y18ny34n2yn6y4n62y7nyny4ny15ny10n7y57n23y4ny8n2y2n2y22ny7ny2ny5n3y8n2y2n2y2n3yn6yn5y7",
  "n156y66ny3ny4n20y3n30y66n2y2nyn184y54n2y7n25y6n34y63nyn3yn59y54n2yn71y27n2y14n21y7n185y57",
  "n103y64n31y8n2yn2y8ny2ny30ny2n2y2n2y4n93y8n2y46n2y6nyny2n27y51n2y10n17y72n5yn18y73n263y9ny45",
  "ny7nyn49y30n2y22ny14n73y7ny2ny44n3yny2ny3nyn2y2n24y6ny2ny37ny2ny4nyn327y23n9y17ny41n3y3n111y",
  "n79y922n102y111n17y196n2636y97n15y1072n17y6n4025y583n8633y569n7y31n17y79n17y30n18y48n16y4n31",
  "y21n5y19n688y64n128y75n4y57n7y17n64y2nyn12y2n14y6136n8y1238n42y9n8935y4ny7ny2ny291n15yn29y3",
  "n2yn14y4n8y396n2308y107n5y13n3y9n7y10n4yn5985y85ny71ny2n2yn2y2n2y4ny12nyny7ny65ny4n2y8ny7n",
  "y28ny4ny5nyn3y7ny340n2y25ny25ny31ny25ny31ny25ny31ny25ny31ny25ny8n1844y31n6y6n213y7ny17n2y7n",
  "y2ny5n5y62n33yn112y45n10y7n16yn321y30n18y44n484y28n756y7ny4ny2ny15ny197n59y68n3yn3yn1204y4n",
  "y27ny2nyn2yny10ny4nynyn6yn4ynynyny3ny2nyn2ynynynynyny2nyn2y4ny7ny4ny4nyny10ny17n5y3ny5ny17",
  "n628y26n6y26n6y26n3702y42720n32y4154n6y222n2y5762n14y7473n3103y542n1506y4939n5y4192n908368"]

/-- The property `Bidi_Control`. -/
def bidiControl : Runs := Runs.ofLines [
  "n1564yn6641y2n26y5n55y4n1105814"]

/-- The property `Bidi_Mirrored`. -/
def bidiMirrored : Runs := Runs.ofLines [
  "n40y2n18ynyn28ynyn29ynyn45yn15yn3710y4n1885y2n2460y2n10y2n54y2n14y2n177yn192y4n3y6n3yn3y2n3",
  "y4ny4nynyn4y9n5yny18n5y4n9y2nyny8n2y31n2y4n5yn9y2n2y19n5y2n9y5n2y2n4y24n2y16n8y4n20y2n7y2",
  "n1085y14n74yn2y4ny2ny3n5y4n5y3n3y14n403y22n2y6ny14n8yn7y6n3yn4y5ny2n2y5n4yny3n2y2n10y6n2y2",
  "n12y19ny4n2ynyn2yny4n5y2n6y3n24y2n11y2n4y4ny2n2y2n4y43n2y8ny40n5ynyn3y5n5y3n4yn3y5nyn256y",
  "n515y4n3y2ny2n14y2n2y10n43y8n427y10n2y8n52797y6n5y2n162y2n18ynyn28ynyn29ynyny2ny2n55159yn57y",
  "n57yn57yn57yn993340"]

/-- The property `Case_Ignorable`. -/
def caseIgnorable : Runs := Runs.ofLines [
  "n39yn6yn11yn35ynyn71yn4ynyn4yn2y2n503y192n4y2n4yn9y2nyn251y7n207yn5yn49y45nyny2ny2nyn44yn11",
  "y6n10y11nyn35yn10y21n16yn101y8ny10ny4n33ynyn30y27n91y11n58y11n4yn2yn24y24n43y3n44yn7y2n6y8",
  "n41y58n55ynyn4y8n4yn3y7n10y2n13yn15yn58yn4y4n8yn20y2n26yn2y2n57yn4y2n4y2n2y3n3yn30y2n3yn11y2",
  "n57yn4y5ny2n4yn20y2n22y6nyn58yn2yny4n8yn7y2n11y2n30yn61yn12yn50yn3yn55yny3n5y3ny4n7y2n11y2",
  "n29yn58yn2yn6yn5y2n20y2n28y2n57y2n4y4n8yn20y2n29yn72yn7y3nyn90yn2y7n11y9n98yn2y9n9yny7n73y2",
  "n27ynynyn55y14ny5ny2n5y11ny36n9yn102y4ny6ny2n2y2n25y2n4y3n16y4n13yn2y2n6yn15yn94yn608y3n946",
  "y3n29y2n30y2n30y2n64y2ny7n8yn2y11n3yn5yn45y5n51yn65y2n34yn118y3n4y2n9yn6y3n219y2n2yn58yny7ny",
  "nyn2y8n6y10n2yn39yn8y31n49y4n48yny5nyn5yn40y9n12y2n32y4n2y2ny3n56yny2n3yny3n58y8n2y2n64y6n82",
  "y3ny13ny7n4yn6yn3y2n50y63n13yn34y101n445yny3n11y3n13y3n13y3n13y2n12y5n8y2n10yn2yn2y5n49y5n",
  "y10nyn13yn16y13n51y33n2955y2n113y3n125yn15yn96y32n47yn469yn36y4n3y5n5yn93y6n93y3n28438yn1250",
  "y6n270yn98y4ny10nyn28y4n80y2n14y34n78yn23y3n103y3n3y2n8yn3yn4yn25y2n5yn151y2n26y18n13yn38y8",
  "n25y11n46y3n48yn2y4n2y2n17yn21y2n66y6n2y2n2y2n12yn8yn35yn11yn51yny3n2y2n5y2nyn27yn14y2n5y2ny",
  "n100y5n9y3n121yn2yn4yn20272yn147y17n573y16n3yn12y16n34yn2yn169yn7yn6yn11yn35ynyn47yn45y2n67y",
  "n21y3n513yn226yn149y5n1029y6ny42ny9n582y3ny2n5y4n40y3n4yn165y2n573y4n387y2n80y3n70y11n49y4",
  "n123yn54y15n41yn2y2n10y3n49y4n2y2n2yn4yn10yn50y3n36y5ny8n62yn12y2n52y9n10y4n2yn95y3n2yny2n6y",
  "n2yn157yn3y8n21y2n57y2n3yn37y7n3y5n195y8n2y3nyn23yn84y6nyn4y2ny2n238y4n6y2ny2n27y2n85y8n2yn",
  "y2n106ynyn2y6nyn101y3n2y4ny5n259y9ny2n256y2nyn4yn144y4n2y2n4yn32y10n40y6n2y4n8yn9y6n2y3n46",
  "y13ny2n406y7ny6nyn82y22n2y7ny2ny2n122y6n3yny2ny7nyn72y2n3ynyn347y2n11y2n52y5n5ynyn5357y17n6",
  "y15n13978y5n59y7n9y4n1035yn63y17n64y2ny2n16395y4ny7ny2n3230y2ny4n4700y46n2y23n544y3n9y16n2y7",
  "n30y4n148y3n1979y55n4y50n8yn14yn22y5ny15n1360y7ny17n2y7ny2ny5n5y62n33yn160y14n368yn61y4n507",
  "y5n992y7n109y8n2735y5n789505yn30y96n128y240n196112"]

/-- The property `Cased`. -/
def cased : Runs := Runs.ofLines [
  "n65y26n6y26n47yn10yn4yn5y23ny31ny195ny4n4y208ny36n7y2n30y5n96yn42y4n2y2n2y4nyn6yny3nyny20n",
  "y83ny139n8y166ny38n9y41n2839y38nyn5yn2y43ny4n672y86n2y6n2178y9n7y43n2y3n64y192n64y278n2y6n2",
  "y38n2y6n2y8nynynyny31n2y53ny7nyn3y3ny7n3y4n2y6n4y13n5y3ny7n116yn13yn16y13n101yn4yn2y10nyn3y5",
  "n6ynynyny4ny6n4yn2y4n5y5n4yn17y32n3y2n817y52n1814y229n6y4n3y2n12y38nyn5yn30994y46n18y30n132",
  "y102n3y4ny59n5y2nyny5n24y5ny3n821y43ny14n6y80n20288y7n12y5n1033y26n6y26n1189y80n96y36n4y36",
  "n116y11ny15ny7ny2ny11ny15ny7ny2n451yn2y3ny42ny9n1221y51n13y51n2989y64n21856y64n25984y85ny71n",
  "y2n2yn2y2n2y4ny12nyny7ny65ny4n2y8ny7ny28ny4ny5nyn3y7ny340n2y25ny25ny31ny25ny31ny25ny31ny25n",
  "y31ny25ny8n1844y10ny20n6y6n261y62n2194y68n2028y26n6y26n6y26n986742"]

/-- The property `Changes_When_Casefolded`. -/
def changesWhenCasefolded : Runs := Runs.ofLines [
  "n65y26n90yn10y23ny8n32ynynynynynynynynynynynynynynynynynynynynynynynynynynynyn2ynynynynynyny",
  "nyny2nynynynynynynynynynynynynynynynynynynynynynyny2nynynyny2nyny2ny3n2y4ny2ny3n3y2ny2nynyn",
  "y2nyn2yny2ny3nyny2n3yn7y2ny2ny2nynynynynynynynyn2ynynynynynynynynyn2y2nyny3nynynynynynynynyn",
  "ynynynynynynynynynynynynynynynynynynynynyn7y2ny2n2yny4nynynynyn246yn42ynyn3yn8yn6yny3nyny2n",
  "y17ny9n22yn12y3n3y2nynynynynynynynynynynynyny2n2y2nyny2n2y51n48ynynynynynynynynynynynynynyny",
  "nynyn9ynynynynynynynynynynynynynynynynynynynynynynynynynynyny2nynynynynynyn2ynynynynynynynyn",
  "ynynynynynynynynynynynynynynynynynynynynynynynynynynynynynynynynynynynynynynynyn2y38n48y",
  "n2840y38nyn5yn810y6n2178y9n7y43n2y3n320ynynynynynynynynynynynynynynynynynynynynynynynynynyny",
  "nynynynynynynynynynynynynynynynynynynynynynynynynynynynynynynynynynynynynynynynynynynynynyny",
  "nynyn5y2n2ynynynynynynynynynynynynynynynynynynynynynynynynynynynynynynynynynynynynynynynynyn",
  "ynynynynynynynyn9y8n8y6n10y8n8y8n8y6n11ynynynyn8y8n16y48n2y3n2y6n5y3n2y6n11y4n12y5n5y3n2y6",
  "n297yn3y2n6yn45y16n19yn818y26n1840y48n48yny3n2ynynyny4nyn2yn8y3nynynynynynynynynynynynynynyn",
  "ynynynynynynynynynynynynynynynynynynynynynynynynynynynynynynynynynynyn8ynyn4yn31053ynynynyny",
  "nynynynynynynynynynynynynynynynynynyn19ynynynynynynynynynynynynynyn135ynynynynynynyn3ynynyny",
  "nynynynynynynynynynynynynynynynynynynynynynynynynynynyn10ynyny2nynynynyn4ynyn2ynyn3ynynynyny",
  "nynynynynyny5ny5nynynynynynynyny4nyn6yn5ynyn28yn890y80n20288y7n12y5n1033y26n1221y40n136y36",
  "n156y11ny15ny7ny2n1770y51n3053y32n21888y32n31392y34n988894"]

/-- The property `Changes_When_Casemapped`. -/
def changesWhenCasemapped : Runs := Runs.ofLines [
  "n65y26n6y26n58yn10y23ny31ny64ny84ny13ny14n2y14n2y2nyn4y93ny18n6y27ny2nyny2n3y2nyny2ny5n2yny2",
  "n2yn7yn2yny2n3y6n5yn10y2n166yn42y4n2y2n3y3nyn6yny3nyny20ny47n3y33ny5ny133n8y166ny38n10y39",
  "n2840y38nyn5yn2y43n2y3n672y86n2y6n2178y9n7y43n2y3n185yn3yn16yn113y156n2yny118n2y6n2y38n2y6n2",
  "y8nynynyny31n2y53ny7nyn3y3ny7n3y4n2y6n4y13n5y3ny7n297yn3y2n6yn27yn17y32n3y2n817y52n1814y113n",
  "y2ny2n7y102n7y4n3y2n12y38nyn5yn30994y46n18y28n134y14n2y62n9y15n3y3n2y5ny25ny27n5y2n4y4n27y2",
  "n860yn28y80n20288y7n12y5n1033y26n6y26n1189y80n96y36n4y36n116y11ny15ny7ny2ny11ny15ny7ny2n1731",
  "y51n13y51n2989y64n21856y64n31360y68n988860"]

/-- The property `Changes_When_Lowercased`. -/
def changesWhenLowercased : Runs := Runs.ofLines [
  "n65y26n101y23ny7n33ynynynynynynynynynynynynynynynynynynynynynynynynynynynyn2ynynynynynynyny",
  "n2ynynynynynynynynynynynynynynynynynynynynynynyny2nynyn3y2nyny2ny3n2y4ny2ny3n3y2ny2nynyny2ny",
  "n2yny2ny3nyny2n3yn7y2ny2ny2nynynynynynynynyn2ynynynynynynynynyn2y2nyny3nynynynynynynynynynyn",
  "ynynynynynynynynynynynynynynynynynynyn7y2ny2n2yny4nynynynyn289ynyn3yn8yn6yny3nyny2ny17ny9n35",
  "yn8ynynynynynynynynynynynyn5yn2yny2n2y51n48ynynynynynynynynynynynynynynynynyn9ynynynynynynyn",
  "ynynynynynynynynynynynynynynynynynynynyny2nynynynynynyn2ynynynynynynynynynynynynynynynynynyn",
  "ynynynynynynynynynynynynynynynynynynynynynynynynynynynynynyn2y38n2889y38nyn5yn722y86n2202y43",
  "n2y3n320ynynynynynynynynynynynynynynynynynynynynynynynynynynynynynynynynynynynynynynynynynyn",
  "ynynynynynynynynynynynynynynynynynynynynynynynynynynynynynynynynyn9ynynynynynynynynynynynyny",
  "nynynynynynynynynynynynynynynynynynynynynynynynynynynynynynynynynynynynyn9y8n8y6n10y8n8y8n8",
  "y6n11ynynynyn8y8n24y8n8y8n8y8n8y5n11y5n11y4n12y5n11y5n297yn3y2n6yn45y16n19yn818y26n1840y48",
  "n48yny3n2ynynyny4nyn2yn8y3nynynynynynynynynynynynynynynynynynynynynynynynynynynynynynynynyny",
  "nynynynynynynynynynynynynynynynyn8ynyn4yn31053ynynynynynynynynynynynynynynynynynynynynynyny",
  "n19ynynynynynynynynynynynynynyn135ynynynynynynyn3ynynynynynynynynynynynynynynynynynynynynyny",
  "nynynynynynynynynyn10ynyny2nynynynyn4ynyn2ynyn3ynynynynynynynynynyny5ny5nynynynynynynyny4ny",
  "n6yn5ynyn28yn22315y26n1221y40n136y36n156y11ny15ny7ny2n1770y51n3053y32n21888y32n31392y34",
  "n988894"]

/-- The property `Changes_When_Titlecased`. -/
def changesWhenTitlecased : Runs := Runs.ofLines [
  "n97y26n58yn41y24ny8nynynynynynynynynynynynynynynynynynynynynynynynynynynynyn2ynynynynynynyn",
  "y2nynynynynynynynynynynynynynynynynynynynynynynyn2ynyny3n2ynyn2yn3yn5yn2yn3y2n3yn2ynynyn2yn4",
  "yn2yn3ynyn2yn3ynyn4yny2ny2nynynynynynynynyny2nynynynynynynynyny3nynyn3ynynynynynynynynynynyn",
  "ynynynynynynynynyn3ynynynynynynynynyn8yn2y2nyn4ynynynyny6ny2nyny2n3y2nyny2ny5n2yny2n2yn7yn2y",
  "ny2n3y6n5yn10y2n166yn43ynyn3yn3y3n18yn27y35ny2n3y3nynynynynynynynynynynyny5nyn2yn2yn52y48nyn",
  "ynynynynynynynynynynynynynynynyn9ynynynynynynynynynynynynynynynynynynynynynynynynynynyn2ynyn",
  "ynynynyny2nynynynynynynynynynynynynynynynynynynynynynynynynynynynynynynynynynynynynynynynyny",
  "nynynynynynynyn49y39n3696y6n2178y9n240yn3yn16yn114ynynynynynynynynynynynynynynynynynynynynyn",
  "ynynynynynynynynynynynynynynynynynynynynynynynynynynynynynynynynynynynynynynynynynynynynynyn",
  "ynynynynynynyny7n5ynynynynynynynynynynynynynynynynynynynynynynynynynynynynynynynynynynynynyn",
  "ynynynynynynynynynyny9n8y6n10y8n8y8n8y6n10y8n8y8n8y14n2y8n8y8n8y8n8y5ny2n6yn3y3ny2n8y4n2y2n8",
  "y8n10y3ny2n342yn33y16n4yn843y26n1862y48nyn3y2nynynyn6yn2yn10ynynynynynynynynynynynynynynynyn",
  "ynynynynynynynynynynynynynynynynynynynynynynynynynynynynynynynynynyn8ynyn4yn12y38nyn5yn30995",
  "ynynynynynynynynynynynynynynynynynynynynynynyn19ynynynynynynynynynynynynynyn135ynynynynynyny",
  "n3ynynynynynynynynynynynynynynynynynynynynynynynynynynynynynynyn10ynyn2ynynynynyn4yn4yny2n2y",
  "nynynynynynynynynyn11ynynynynynynynyn4ynyn6yn5ynyn28yn860yn28y80n20288y7n12y5n1065y26n1229",
  "y40n136y36n155y11ny15ny7ny2n1795y51n3021y32n21888y32n31394y34n988860"]

/-- The property `Changes_When_Uppercased`. -/
def changesWhenUppercased : Runs := Runs.ofLines [
  "n97y26n58yn41y24ny8nynynynynynynynynynynynynynynynynynynynynynynynynynynynyn2ynynynynynynyn",
  "y2nynynynynynynynynynynynynynynynynynynynynynynyn2ynyny3n2ynyn2yn3yn5yn2yn3y2n3yn2ynynyn2yn4",
  "yn2yn3ynyn2yn3ynyn5y2ny2ny2nynynynynynynyny2nynynynynynynynyny2ny2nyn3ynynynynynynynynynynyn",
  "ynynynynynynynynyn3ynynynynynynynynyn8yn2y2nyn4ynynynyny6ny2nyny2n3y2nyny2ny5n2yny2n2yn7yn2y",
  "ny2n3y6n5yn10y2n166yn43ynyn3yn3y3n18yn27y35ny2n3y3nynynynynynynynynynynyny5nyn2yn2yn52y48nyn",
  "ynynynynynynynynynynynynynynynyn9ynynynynynynynynynynynynynynynynynynynynynynynynynynyn2ynyn",
  "ynynynyny2nynynynynynynynynynynynynynynynynynynynynynynynynynynynynynynynynynynynynynynynyny",
  "nynynynynynynyn49y39n2888y43n2y3n760y6n2178y9n240yn3yn16yn114ynynynynynynynynynynynynynynyny",
  "nynynynynynynynynynynynynynynynynynynynynynynynynynynynynynynynynynynynynynynynynynynynynyny",
  "nynynynynynynynynynynynyny7n5ynynynynynynynynynynynynynynynynynynynynynynynynynynynynynynyny",
  "nynynynynynynynynynynynynynynyny9n8y6n10y8n8y8n8y6n10y8n8y8n8y14n2y53ny2n4ynyn3y3ny2n4yn3y4",
  "n2y2n8y8n10y3ny2n4yn337yn33y16n4yn843y26n1862y48nyn3y2nynynyn6yn2yn10ynynynynynynynynynynyny",
  "nynynynynynynynynynynynynynynynynynynynynynynynynynynynynynynynynynynynynynyn8ynyn4yn12y38ny",
  "n5yn30995ynynynynynynynynynynynynynynynynynynynynynynyn19ynynynynynynynynynynynynynyn135ynyn",
  "ynynynynyn3ynynynynynynynynynynynynynynynynynynynynynynynynynynynynynynyn10ynyn2ynynynynyn4y",
  "n4yny2n2ynynynynynynynynynyn11ynynynynynynynyn4ynyn6yn5ynyn28yn860yn28y80n20288y7n12y5n1065",
  "y26n1229y40n136y36n155y11ny15ny7ny2n1795y51n3021y32n21888y32n31394y34n988860"]

/-- The property `Dash`. -/
def dash : Runs := Runs.ofLines [
  "n45yn1372yn51yn3649yn1029yn2057y6n61yn39yn15yn390yn3076yn2yn31y2n4yn28yn446yn19yn111yn52624",
  "y2n37yn10yn169yn3999yn1044818"]

/-- The property `Default_Ignorable_Code_Point`. -/
def defaultIgnorableCodePoint : Runs := Runs.ofLines [
  "n173yn673yn716yn2882y2n1619y2n85y5n2043y5n26y5n49y16n4340yn52379y16n239yn160yn79y9n48295y4",
  "n5327y8n798341y4096n192512"]

/-- The property `Deprecated`. -/
def deprecated : Runs := Runs.ofLines [
  "n329yn1321yn2307ynyn2089y2n2245y6n697y2n908502yn196606"]

/-- The property `Diacritic`. -/
def diacritic : Runs := Runs.ofLines [
  "n94ynyn71yn6yn4yn2y2n503y159ny8n5y6n17y2n4yn9y2n253y5n209yn55y17ny27nyny2nyn134y8n4y2n134y2",
  "n4y2n3y3n67y27n91y11n58y11n34y2n126y8n41y10n16y28n61yn16yn3y4n28yn74yn16yn110yn16yn110yn16y",
  "n47y3n60yn16yn7yn119yn110yn16yn110yn16yn109y2n16yn124yn124y6nyn107yn13y5n75y2n27ynynyn4y2n66",
  "y3ny2n62yn112yny2n40y2n4y5n25y7nyn10y2n705y3n948y2n179y11n9yn347y3n313y8n2yn48y15n2y11n104y",
  "n15yn38y9n54y2n138y2n64y6n82y25n4yn6yn2y3n50y63n89y12n37y11n445yny3n11y3n13y3n13y3n13y2n3312",
  "y3n317yn506y6n105y4n95yn30066yn12y2nyn28y2n82y2n14y34n102y3n109y2n202yn27y18n57y4n36yn95yn12",
  "yn36yn149y3n65y4n51yn100y5n9y3n128y2n20272yn769y16n270ynyn47yn45y2n67yn764yn1183y6ny42ny9",
  "n810y2n571y6n469y3n70y11n49y4n192yn41yn72y2n120y2n62yn76yn9y3n104y2n178y2n81yn16yn24y7n3y5",
  "n205yn3yn123y2n251y2n126yn118y2n115yn269y2n258y2n4yn156yn83yn18yn81yn421yn258yny2n81yn5807",
  "y15n13978y5n59y7n1112y17n80y2n16382y4ny7ny2n7937y46n2y23n544y3n3y6n8y8n2y7n30y4n3714y62n194",
  "y7n375yn61y4n1504y7n109y3ny3n988853"]

/-- The property `Emoji`. -/
def emoji : Runs := Runs.ofLines [
  "n35yn6yn5y10n111yn4yn8077yn12yn216yn22yn90y6n15y2n367y2n12yn166yn25y11n4y3n199yn231y2n10yn9y",
  "n58y4ny5n9yn2yn2y2n2yn4yn2yny2n2yn3yn3y2n8y3n5ynyn5y12n11y2n2yny2nyn18yn2y2n18y6nyny2n3y2n5y",
  "n2y2n4y2n11y2n5y2n2yn5y2nyny2n20y2n5y6ny4n2yn4yn2yn2y6nyn2ynynyn6yn3yn6yn10y2n15yn2yn4ynyn4",
  "y3nyn11y2n48y3n9yn14yn14yn372y2n463y3n19y2n51yn4yn1242yn12yn601ynyn114026yn202yn160y2n12y2",
  "n14yn2y10n75y26ny2n23yn20yn2y9n21y2n174y34n2y112n2y2ny3n2y83n2y3ny263ny63n11y6ny24n7y2n2y8",
  "n12yn2y4n2yn4y2n13y2n2yn8y2n9yn5y3n12y3n8y3n2ynyn4yn6yn3yn6y86n48y70n5y8n2y3n4y10n3yny2n3yn2",
  "y10n227y12n4yn283y47ny10ny185n112y13n3y9n7y46ny7n8y14n4y9n7y9n984327"]

/-- The property `Emoji_Component`. -/
def emojiComponent : Runs := Runs.ofLines [
  "n35yn6yn5y10n8147yn213yn56619yn62422y26n507y5n1456y4n788076y96n196480"]

/-- The property `Emoji_Modifier`. -/
def emojiModifier : Runs := Runs.ofLines [
  "n127995y5n986112"]

/-- The property `Emoji_Modifier_Base`. -/
def emojiModifierBase : Runs := Runs.ofLines [
  "n9757yn219yn16y4n117879yn60y3n2yn2y3n117y2n2y11n21y19n3yn4y3ny3n7ynyn24yn201y2n4yn21yn4y2",
  "n174y3n3y5n83yn16y3n9yn11yn575yn2yn8y8n6yn9y10n2y3n56yn61y2ny2nyn17y3ny13n229y3n42y9n984327"]

/-- The property `Emoji_Presentation`. -/
def emojiPresentation : Runs := Runs.ofLines [
  "n8986y2n205y4n3yn2yn521y2n21y2n50y12n43yn19yn13yn8y2n17y2n5y2n8yn5yn21yn7y2nyn4yn2yn7yn4y2",
  "n28yn35ynyn4y3nyn61y3n24yn14yn859y2n51yn4yn115886yn202yn190yn2y10n75y26nyn24yn20yn2y5ny3n21",
  "y2n174y33n12y9ny70ny22n12y43n4y5n12y17n3yn3y71nyny187n2y63n13y4ny24n18yn26y2n13yn86y85n48y70",
  "n6yn3y3n2y3n4y4n11y2n7y9n227y12n4yn283y47ny10ny185n112y13n3y9n7y46ny7n8y14n4y9n7y9n984327"]

/-- The property `Extended_Pictographic`. -/
def extendedPictographic : Runs := Runs.ofLines [
  "n169yn4yn8077yn12yn216yn22yn90y6n15y2n367y2n12yn95yn70yn25y11n4y3n199yn231y2n10yn9yn58y4ny6n",
  "y12ny114n10y118n2y11nynyn6yn3yn6yn10y2n15yn2yn4ynyn4y3nyn11y5n45y3n9yn14yn14yn372y2n463y3n19",
  "y2n51yn4yn1242yn12yn601ynyn114022y256n13y3n31yn60y6n12y2n14yn2y10n18y57n27y15n10yn20yn2y9ny4",
  "n9y434n5y318n8y266n48y128n116y12n85y43n12y4n56y8n10y6n40y8n30y82n12y47ny10ny441n256y1022",
  "n983042"]

/-- The property `Extender`. -/
def extender : Runs := Runs.ofLines [
  "n183yn536y2n878yn441yn858yn752yn127yn2371yn56yn611yn398yn68yn5001yn43y5n103y2n93y3n28438y",
  "n1526yn962yn22yn137yn108yn21y2n21627yn2064y2n3034yn616y3n1231yn20649y2n1180y2nyn29016y2n2054",
  "y3n988857"]

/-- The property `Grapheme_Base`. -/
def graphemeBase : Runs := Runs.ofLines [
  "n32y95n33y13ny594n112y8n2y6n4y7nyny20ny224n7y166ny38n2y50n2y3n46ynyn2yn2yn9y27n4y6n17y10n11y",
  "ny46n21y16ny101n8yn6y2n2yn4y32n2yny30n29y89n11yn14y43n9y7n3y24n4yn9yn3yn7y15ny25n5yny11n5y31",
  "n17y42n57y55nyny4n8y4ny3n7y10n2y29ny2ny8n2y2n2y22ny7nyn3y4n3yny2n6y2n2y2nyn13y2ny3n4y24n5yn",
  "y6n4y2n2y22ny7ny2ny2ny2n4y3n24y4nyn7y10n2y3nyn12yny9ny3ny22ny7ny2ny5n3y4n8yny2n3yn15y2n4y12",
  "n7yn8y2ny8n2y2n2y22ny7ny2ny5n3yn2yn6y2n2y2n15y2ny3n4y18n11yny6n3y3ny4n3y2nyny2n3y2n3y3n3y12",
  "n5yny2n3y3ny3n3yn21y21n6y3ny8ny3ny23ny16n3yn3y4n19y3n2yn2y2n4y10n7y10ny11ny3ny23ny10ny5n3y2n",
  "y2ny2n2y2ny2n17y2ny2n4y10ny3n14y11ny3ny41n2yny2n5y3ny3ny2n4y3ny10n4y26n2y2ny18n3y24ny9nyn2y7",
  "n9y2n6y7n7y10n2y3n12y48ny2n11y8n8y13n37y2nyny5ny24nyny10ny2n9yn2y5nyn9y10n2y4n32y24n2y27nyny",
  "ny14ny36n18yn5yn2y5n49y8ny6ny13n37y45n4yn6yn2y2n2y25n2y4n3y16n4y13ny2n2y6ny15ny40nyn5yn2y377",
  "ny4n2y7nyny4n2y41ny4n2y33ny4n2y7nyny4n2y15ny57ny4n2y67n5y29n3y26n6y86n2y6n2y669n3y89n7y18n3y",
  "n9y19n2y3n9y18n14y13ny3n15y52n2yn7y8ny2n11y9n3y10n6y10n6y11n5y10n6y89n7y5n2y34nyn5y70n10y31",
  "n4y4n2y3n4y2ny6n7yn3y42n2y5n11y44n4y26n6y11n3y57n2y2n3y56nyn9yny2n8y6n13y10n6y10n6y14n86y48",
  "n7yny5ny10n3y27n9y11n3y32n4y2n2yn3y56nyn2y3nyn3y2n8y48n8y2n5y15n3y60n7y43n2y11n11yn13yn7y4n",
  "y6ny3n2yn5y192n64y278n2y6n2y38n2y6n2y8nynynyny31n2y53ny15ny14n2y6ny19n2y3ny9ny11n5y24n7y49",
  "n16y2n2y27ny13n3y33n63y140n4y663n25y11n21y1812n2y32ny344n3y2n5y45nyn5yn2y56n7y2n15y23n9y7ny7",
  "ny7ny7ny7ny7ny7ny7n33y94n34y26ny89n12y214n26y12n4y42n6y16ny86n4y101n5y43ny94ny84n12y47n",
  "y29293n3y55n9y348n20y47n4yn10y32n2y80n2y6n8y203n5y2nyny5n24y16ny3ny4ny25n2y5n4y10n6y56n8y68",
  "n10y12n24y13ny38n8y25n11y2n11y30n6y48ny2n4y2n2y16ny11n4y7ny25ny41n6y2n2y2n11y3ny8nyn2y10n2",
  "y32ny51nyn3y2n2y5n2ynyn24y17n2y8n11y6n2y6n2y6n9y7ny7ny60n4y117ny2ny4n3y10n6y11172n12y23n4y49",
  "n8452y366n2y106n38y7n12y5n5yny24ny5nyny2ny2ny125n16y445n2y54n7yn32y16n16y10n22y35ny19ny4n4y5",
  "ny135n4y157n2y31n3y6n2y6n2y6n2y3n3y7ny7n13y2n2y12ny26ny19ny2ny15n2y14n34y123n5y3n4y45n3y88n",
  "y13n3yn47y45n131y29n3y49n16y27n4y36n9y30n5y38n10y30ny37n4y14n42y158n2y10n6y36n4y36n4y40n8y52",
  "n11y12ny15ny7ny2ny11ny15ny7ny2n67y311n9y22n10y8n24y6ny42ny9n69y6n2yny44ny2n3yn2y23ny72n8y9",
  "n48y19ny2n5y33n3y27n5yn64y56n4y20n2y47n15y4ny3ny29n10y9n7y9n7y64n32y37n6y12n9y54n3y29n2y27n5",
  "y26n7y4n12y7n80y73n55y51n13y51n7y42n12y10n294y31ny42n3yn2y2n78y40n8y22n11y9n22y18n4y4n38y28",
  "n20y23n9yny54n15y7n4y30ny2n2yn12y49n4y2n2y2ny4n14y25n7y10n9y36n5yn9y18n8y35ny3n11y52n9y10n4",
  "y2ny16ny20n11y18ny28n3y2nyn2y6ny2n63y7nyny4ny15ny11n6y47ny3n13y10n8y2ny8n2y2n2y22ny7ny2ny5n3",
  "ynyny4n2y2n2y3n2yn12y7n156y56n8y2n3yny21nyny3n30y48ny2n6yny2nyn2yn2y4n8y10n166y47ny2n6y4n2y",
  "n2y27n36y51n8y2nyn2y4n11y10n6y13n19y43nyny2n6yny2n6y10n54y27n5y2n4yn9y23n185y47n9yn2yn100y83",
  "n12y8n2yn2y8ny2ny24ny5ny2n4yny4ny3n9y10n70y8n2y42n8y4ny4n27yn10y40n6y2n4y8n9yn6y2n3y46n13yn2",
  "y9n13y73n7y10n246y9ny38n14yny6n10y29n3y32n25yn7yn2yn75y7ny2ny38n21yn9y10n6y6ny2ny37n4y2nyny",
  "n7y10n310y19n2y4n9y15ny36n8y2nyny23n86yn15y50n13y923n102y111ny5n11y196n2636y99n13y1072n17y6",
  "n4025y583n8633y569n7y31ny10n4y81ny10n6y30n7yn10y48n7y15n10y10ny7ny21n5y19n688y91n101y75n5y56",
  "n11y13n64y4n12y2n14y6136n8y1238n42y9n8935y4ny7ny2ny291n15yn29y3n2yn14y4n8y396n2308y107n5y13",
  "n3y9n7y10n2yn2yn4784y116n60y246n10y39n2y60nyn3y4n21y2n7y30n4y61n21y66n3yn122y20n12y20n12y87",
  "n9y25n135y85ny71ny2n2yn2y2n2y4ny12nyny7ny65ny4n2y8ny7ny28ny4ny5nyn3y7ny340n2y292n2y562n55y4",
  "n50y8ny14ny7n1140y31n6y6n261y62n146y45n10y7n2y10n4y2n320y30n18y44n4y10n5yn464y28n4y10n742y7n",
  "y4ny2ny15ny197n2y9n48y68n7yn4y10n4y2n785y68n76y61n194y4ny27ny2nyn2yny10ny4nynyn6yn4ynynyny3n",
  "y2nyn2ynynynynyny2nyn2y4ny7ny4ny4nyny10ny17n5y3ny5ny17n52y2n270y44n4y100n12y15n2y15ny15ny37",
  "n10y174n56y29n13y44n4y9n7y2n14y6n154y984n4y17n3y13n3y119n4y95n6y12n4yn15y12n4y56n8y10n6y40n8",
  "y30n2y2n78y340n12y14n2y13n3y9n7y46ny7n8y14n4y9n7y9n7y147ny55n37y10n1030y42720n32y4154n6y222",
  "n2y5762n14y7473n3103y542n1506y4939n5y4192n908368"]

/-- The property `Grapheme_Extend`. -/
def graphemeExtend : Runs := Runs.ofLines [
  "n768y112n275y7n263y45nyny2ny2nyn72y11n48y21n16yn101y7n2y6n2y2ny4n35yn30y27n91y11n58y9n9yn24",
  "y4ny9ny3ny5n43y3n60y8n42y24ny32n55ynyn4y8n4yn3y7n10y2n29yn58ynyn2y4n8yn9yn10y2n26yn2y2n57yn4",
  "y2n4y2n2y3n3yn30y2n3yn11y2n57yn4y5ny2n4yn20y2n22y6nyn58yny2ny4n8yn7y3n10y2n30yn59ynyn12yn9y",
  "n40yn3yn55yny3n5y3ny4n7y2n11y2n29yn58yn2yn2yn3yn5y2n7y2n11y2n28y2n57y2nyn2y4n8yn9yn10y2n29y",
  "n72yn4yn2y3nyn8yn81yn2y7n12y8n98yn2y9n11y7n73y2n27ynynyn55y14ny5ny2n5y11ny36n9yn102y4ny6ny2",
  "n2y2n25y2n4y3n16y4n13yn2y2n6yn15yn703y3n946y3n29y2n30y2n30y2n64y2ny7n8yn2y11n9yn45y3nyn117y2",
  "n34yn118y3n4y2n9yn6y3n219y2n2yn58yny7nynyn2y8n6y10n2yn48y31n49y4n48y7nyn5yn40y9n12y2n32y4n2",
  "y2ny3n56yny2n3yny3n58y8n2y2n152y3ny13ny7n4yn6yn3y2n198y64n524yn195y33n3070y3n141yn96y32n554",
  "y6n105y2n30164y4ny10n32y2n80y2n272yn3yn4yn25y2n5yn151y2n26y18n13yn38y8n25y11n46y3n48yn2y4n2",
  "y2n39yn67y6n2y2n2y2n12yn8yn47yn51yny3n2y2n5y2nyn42y2n8yn238yn2yn4yn20272yn737y16n16y16n366y2",
  "n605yn226yn149y5n1670y3ny2n5y4n40y3n4yn165y2n573y4n387y2n80y3n70y11n49y4n123yn54y15n41yn2y2",
  "n10y3n49y4n2y2n7yn61y3n36y5ny8n62yn12y2n52y9n10y4n2yn95y3n2yny2n6yn2yn157yn3y8n21y2n57y2nyny",
  "n22yn14y7n3y5n195y8n2y3nyn23yn81yn2y6nyn2yny2ny2n235yn2y4n6y2ny2n27y2n85y8n2yny2n106ynyn2y6n",
  "yn101y3n2y4ny5n259y9ny2n245yn10y2nyn4yn144y4n2y2n4yn32y10n40y6n2y4n8yn9y6n2y3n46y13ny2n406y7",
  "ny6nyn82y22n2y7ny2ny2n122y6n3yny2ny7nyn72y2n3ynyn347y2n11y2n52y5n5ynyn5373yn6y15n13978y5n59",
  "y7n1048yn63y4n81yn19640y2n4705y46n2y23n542yny3n4y5n8y8n2y7n30y4n148y3n1979y55n4y50n8yn14yn22",
  "y5ny15n1360y7ny17n2y7ny2ny5n100yn160y7n375yn61y4n508y4n992y7n109y7n792277y96n128y240n196112"]

/-- The property `Hex_Digit`. -/
def hexDigit : Runs := Runs.ofLines [
  "n48y10n7y6n26y6n65193y10n7y6n26y6n1048761"]

/-- The property `IDS_Binary_Operator`. -/
def idsBinaryOperator : Runs := Runs.ofLines [
  "n12272y2n2y8n1101828"]

/-- The property `IDS_Trinary_Operator`. -/
def idsTrinaryOperator : Runs := Runs.ofLines [
  "n12274y2n1101836"]

/-- The property `ID_Continue`. -/
def idContinue : Runs := Runs.ofLines [
  "n48y10n7y26n4yny26n47yn10ynyn2yn5y23ny31ny458n4y12n14y5n7ynyn17y117ny2n2y4nyn6y5nyny20ny83n",
  "y139ny5n2y166ny38n2yn6y41n8y45nyny2ny2nyn8y27n4y4n29y11n5y74n4y102ny8n2y10ny19n2yn16y59n2",
  "y101n14y54n4yn2yn2y46n18y28n4y11n5y24ny6n9y74ny129n2y10ny19ny8n2y2n2y22ny7nyn3y4n2y9n2y2n2y4",
  "n8yn4y2ny5n2y12n10ynyn2y3ny6n4y2n2y22ny7ny2ny2ny2n2yny5n4y2n2y3n3yn7y4nyn7y16n11y3ny9ny3ny22",
  "ny7ny2ny5n2y10ny3ny3n2yn15y4n2y10n9y7ny3ny8n2y2n2y22ny7ny2ny5n2y9n2y2n2y3n7y3n4y2ny5n2y10ny",
  "n16y2ny6n3y3ny4n3y2nyny2n3y2n3y3n3y12n4y5n3y3ny4n2yn6yn14y10n16y13ny3ny23ny16n2y9ny3ny4n7y2n",
  "y3n2yn2y4n2y10n16y4ny8ny3ny23ny10ny5n2y9ny3ny4n7y2n6y2ny4n2y10ny3n12y13ny3ny51ny3ny5n5y4n7y5",
  "n2y10n10y6ny3ny18n3y24ny9nyn2y7n3yn4y6nyny8n6y10n2y2n13y58n5y15ny10n39y2nyny5ny24nyny23n2y5n",
  "yny7ny10n2y4n32yn23y2n6y10n11ynynyn4y10ny36n4y20ny18ny36n9yn57y74n6y78n2y38nyn5yn2y43ny333n",
  "y4n2y7nyny4n2y41ny4n2y33ny4n2y7nyny4n2y15ny57ny4n2y67n2y3n9y9n14y16n16y86n2y6n3y620n2y17ny26",
  "n5y75n3y11n7y22n9y22n11y20n12y13ny3ny2n12y84n3yn4y2n2y10n33y3ny11n6y89n7y43n5y70n10y31ny12n4",
  "y12n10y40n2y5n11y44n4y26n6y11n37y28n4y63ny29n2y11n6y10n13yn8y14ny16n49y77n3y10n17y9n12y116",
  "n12y56n8y10n3y49n2y9n7y43n2y3n16y3ny39n5y534n2y6n2y38n2y6n2y8nynynyny31n2y53ny7nyn3y3ny7n3y4",
  "n2y6n4y13n5y3ny7n66y2n19yn28yn13yn16y13n51y13n4yn3y12n17yn4yn2y10nyn2y6n6ynynyny16n2y4n5y5n4",
  "yn17y41n2679y229n6y9n12y38nyn5yn2y56n7yn15y24n9y7ny7ny7ny7ny7ny7ny7ny7ny32n517y3n25y15ny5n2",
  "y5n4y86n2y7ny90ny4n5y43ny94n17y32n48y16n512y6592n64y22157n67y46n2y269n3y28n20y48n4y10ny115",
  "n37y9n2y103n2y64n5y2nyny5n24y54n4yn19y52n12y70n10y10n6y24n3yny49n2y36n12y29n3y65n14y11n6y31n",
  "y55n9y14n2y10n6y23n3y73n24y3n2y16n2y5n10y6n2y6n2y6n9y7ny7ny43ny14n6y123ny2n2y10n6y11172n12",
  "y23n4y49n8452y366n2y106n38y7n12y5n5y12ny13ny5nyny2ny2ny108n33y363n18y64n2y54n40y12n4y16n16",
  "y16n3y2n24y3n32y5ny135n19y10n7y26n4yny26n11y89n3y6n2y6n2y6n2y3n35y12ny26ny19ny2ny15n2y14n34",
  "y123n69y53n136yn130y29n3y49n15yn31y32n13y30n5y43n5y30n2y36n4y8ny5n42y158n2y10n6y36n4y36n4y40",
  "n8y52n12y11ny15ny7ny2ny11ny15ny7ny2n67y311n9y22n10y8n24y6ny42ny9n69y6n2yny44ny2n3yn2y23n10",
  "y23n9y31n65y19ny2n10y22n10y26n70y56n6y2n64y4ny2n5y8ny3ny29n2y3n4yn32y29n3y29n35y8ny30n25y54",
  "n10y22n10y19n13y18n110y73n55y51n13y51n13y40n8y10n326y42ny2n3y2n75y32n10yn8y33n31y22n42y21n27",
  "y23n9y71n31y16n9y60n7yn13y25n7y10n6y53ny10n4y4n8y36n2yn9y69n4y4ny13nyn35y18ny37n6y4n62y7nyn",
  "y4ny15ny10n7y59n5y10n6y4ny8n2y2n2y22ny7ny2ny5ny10n2y2n2y3n2yn6yn5y7n2y7n3y5n139y75n5y10n4y4",
  "n30y70nyn8y10n166y54n2y9n23y6n34y65n3yn11y10n38y57n7y10n54y27n2y15n4y10n6y7n185y59n101y74n21",
  "y8n2yn2y8ny2ny30ny2n2y9n12y10n70y8n2y46n2y8ny2n27y63n8yn8y74n3yn18y73n263y9ny45ny9n15y10n24",
  "y30n2y22ny14n73y7ny2ny44n3yny2ny9n8y10n6y6ny2ny37ny2ny6n7y10n310y23n9y17ny41n3y5n13y10n86y",
  "n79y922n102y111n17y196n2636y97n15y1072n16y22n4010y583n8633y569n7y31ny10n6y79ny10n6y30n2y5n11",
  "y55n9y4n12y10n9y21n5y19n688y64n128y75n4y57n7y17n64y2ny2n11y2n14y6136n8y1238n42y9n8935y4ny7n",
  "y2ny291n15yn29y3n2yn14y4n8y396n2308y107n5y13n3y9n7y10n3y2n4705y46n2y23n542y5n3y6n8y8n2y7n30",
  "y4n148y3n443y85ny71ny2n2yn2y2n2y4ny12nyny7ny65ny4n2y8ny7ny28ny4ny5nyn3y7ny340n2y25ny25ny31n",
  "y25ny31ny25ny31ny25ny31ny25ny8n2y50n512y55n4y50n8yn14yn22y5ny15n1104y31n6y6n213y7ny17n2y7ny2",
  "ny5n5y62n33yn112y45n3y14n2y10n4yn321y31n17y58n470y42n742y7ny4ny2ny15ny197n11y7n41y76n4y10",
  "n1190y4ny27ny2nyn2yny10ny4nynyn6yn4ynynyny3ny2nyn2ynynynynyny2nyn2y4ny7ny4ny4nyny10ny17n5y3n",
  "y5ny17n3380y10n1030y42720n32y4154n6y222n2y5762n14y7473n3103y542n1506y4939n5y4192n712016y240",
  "n196112"]

/-- The property `ID_Start`. -/
def idStart : Runs := Runs.ofLines [
  "n65y26n6y26n47yn10yn4yn5y23ny31ny458n4y12n14y5n7ynyn129y5ny2n2y4nyn6yny3nyny20ny83ny139n8",
  "y166ny38n2yn6y41n71y27n4y4n45y43n35y2ny99nyn15y2n7y2n10y3n2yn16yny30n29y89n11yn24y33n9y2n4y",
  "n5y22n4yn9yn3yn23y25n7y11n5y24ny6n17y42n58y54n3yn18yn7y10n15y16n4y8n2y2n2y22ny7nyn3y4n3yn16y",
  "n13y2ny3n14y2n10yn8y6n4y2n2y22ny7ny2ny2ny2n31y4nyn19y3n16y9ny3ny22ny7ny2ny5n3yn18yn15y2n23y",
  "n11y8n2y2n2y22ny7ny2ny5n3yn30y2ny3n15yn17yny6n3y3ny4n3y2nyny2n3y2n3y3n3y12n22yn52y8ny3ny23n",
  "y16n3yn26y3n2yn2y2n30yn4y8ny3ny23ny10ny5n3yn31y2ny2n15y2n17y9ny3ny41n2yn16yn5y3n8y3n24y6n5",
  "y18n3y24ny9nyn2y7n58y48ny2n12y7n58y2nyny5ny24nyny10ny2n9yn2y5nyn21y4n32yn63y8ny36n27y5n115",
  "y43n20yn16y6n4y4n3yn3y2n7y3n4y13n12yn17y38nyn5yn2y43ny333ny4n2y7nyny4n2y41ny4n2y33ny4n2y7nyn",
  "y4n2y15ny57ny4n2y67n37y16n16y86n2y6n3y620n2y17ny26n5y75n3y11n7y18n13y19n14y18n14y13ny3n15y52",
  "n35yn4yn67y89n7y41nyn5y70n10y31n49y30n2y5n11y44n4y26n54y23n9y53n82yn93y47n17y8n54y30n13y2n10",
  "y44n26y36n41y3n10y36n2y9n7y43n2y3n41y4ny6ny2n3yn5y192n64y278n2y6n2y38n2y6n2y8nynynyny31n2y53",
  "ny7nyn3y3ny7n3y4n2y6n4y13n5y3ny7n116yn13yn16y13n101yn4yn2y10nyn2y6n6ynynyny16n2y4n5y5n4yn17",
  "y41n2679y229n6y4n3y2n12y38nyn5yn2y56n7yn16y23n9y7ny7ny7ny7ny7ny7ny7ny7n550y3n25y9n7y5n2y5n4",
  "y86n4y5ny90ny4n5y43ny94n17y32n48y16n512y6592n64y22157n67y46n2y269n3y16n10y2n20y47n16y31n2y80",
  "n39y9n2y103n2y64n5y2nyny5n24y16ny3ny4ny23n29y52n14y50n62y6n3yny2n11y28n10y23n25y29n7y47n28y",
  "n16y5ny10n10y5ny41n23y3ny8n20y23n3yn3y50nyn3y2n2y5n2ynyn24y3n2y11n7y3n12y6n2y6n2y6n9y7ny7n",
  "y43ny14n6y115n29y11172n12y23n4y49n8452y366n2y106n38y7n12y5n5yny10ny13ny5nyny2ny2ny108n33y363",
  "n18y64n2y54n40y12n116y5ny135n36y26n6y26n11y89n3y6n2y6n2y6n2y3n35y12ny26ny19ny2ny15n2y14n34",
  "y123n69y53n267y29n3y49n47y32n13y30n5y38n10y30n2y36n4y8ny5n42y158n18y36n4y36n4y40n8y52n12y11n",
  "y15ny7ny2ny11ny15ny7ny2n67y311n9y22n10y8n24y6ny42ny9n69y6n2yny44ny2n3yn2y23n10y23n9y31n65y19",
  "ny2n10y22n10y26n70y56n6y2n64yn15y4ny3ny29n42y29n3y29n35y8ny28n27y54n10y22n10y19n13y18n110y73",
  "n55y51n13y51n13y36n348y42n6y2n78y29n10yn8y22n42y18n46y21n27y23n12y53n57y2n2yn13y45n32y25n26",
  "y36n29yn2yn8y35n3yn12y48n14y4n21ynyn35y18ny25n19y2n63y7nyny4ny15ny10n7y47n38y8n2y2n2y22ny7n",
  "y2ny5n3yn18yn12y5n158y53n18y4n20y3n30y48n20y2nyn184y47n41y4n36y48n20yn59y43n13yn71y27n37y7",
  "n185y44n116y64n31y8n2yn2y8ny2ny24n15ynyn94y8n2y39n16ynyn28yn10y40n7yn21yn11y46n19yn18y73n263",
  "y9ny37n17yn49y30n112y7ny2ny38n21yn25y6ny2ny32n14yn327y19n15yny13ny34n124yn79y922n102y111n17",
  "y196n2636y97n15y1072n17y6n4025y583n8633y569n7y31n17y79n17y30n18y48n16y4n31y21n5y19n688y64",
  "n128y75n5yn66y13n64y2nyn28y6136n8y1238n42y9n8935y4ny7ny2ny291n15yn29y3n2yn14y4n8y396n2308",
  "y107n5y13n3y9n7y10n5990y85ny71ny2n2yn2y2n2y4ny12nyny7ny65ny4n2y8ny7ny28ny4ny5nyn3y7ny340n2",
  "y25ny25ny31ny25ny31ny25ny31ny25ny31ny25ny8n1844y31n6y6n261y62n146y45n10y7n16yn321y30n18y44",
  "n484y28n756y7ny4ny2ny15ny197n59y68n7yn1204y4ny27ny2nyn2yny10ny4nynyn6yn4ynynyny3ny2nyn2ynyny",
  "nynyny2nyn2y4ny7ny4ny4nyny10ny17n5y3ny5ny17n4420y42720n32y4154n6y222n2y5762n14y7473n3103y542",
  "n1506y4939n5y4192n908368"]

/-- The property `Ideographic`. -/
def ideographic : Runs := Runs.ofLines [
  "n12294y2n25y9n14y3n965y6592n64y20992n22784y366n2y106n29962yn27y6136n8y1238n42y9n9319y396",
  "n19716y42720n32y4154n6y222n2y5762n14y7473n3103y542n1506y4939n5y4192n908368"]

/-- The property `Join_Control`. -/
def joinControl : Runs := Runs.ofLines [
  "n8204y2n1105906"]

/-- The property `Logical_Order_Exception`. -/
def logicalOrderException : Runs := Runs.ofLines [
  "n3648y5n123y5n2800y3n2yn37114y2n2yny2n1070403"]

/-- The property `Lowercase`. -/
def lowercase : Runs := Runs.ofLines [
  "n97y26n47yn10yn4yn36y24ny8nynynynynynynynynynynynynynynynynynynynynynynynynynynyny2nynynynyn",
  "ynynyny2nynynynynynynynynynynynynynynynynynynynynynynyn2ynyny3n2ynyn2yn3y2n4yn2yn3y3n2yn2yny",
  "nyn2yny2nyn2yn3ynyn2y2n2y3n6yn2yn2ynynynynynynynyny2nynynynynynynynyny2n2ynyn3ynynynynynynyn",
  "ynynynynynynynynynynynynynynynynynynynynynyny7n2yn2y2nyn4ynynynyny69ny36n7y2n30y5n96yn43yny",
  "n3yn2y4n18yn27y35ny2n3y3nynynynynynynynynynynyny5nyn2yn2y2n51y48nynynynynynynynynynynynynyny",
  "nynynyn9ynynynynynynynynynynynynynynynynynynynynynynynynynynyn2ynynynynynyny2nynynynynynynyn",
  "ynynynynynynynynynynynynynynynynynynynynynynynynynynynynynynynynynynynynynynynynyn48y41n2887",
  "y43ny4n760y6n2178y9n119y192n65ynynynynynynynynynynynynynynynynynynynynynynynynynynynynynynyn",
  "ynynynynynynynynynynynynynynynynynynynynynynynynynynynynynynynynynynynynynynynynynynyny9nyny",
  "nynynynynynynynynynynynynynynynynynynynynynynynynynynynynynynynynynynynynynynynynynynynynyny",
  "ny9n8y6n10y8n8y8n8y6n10y8n8y8n8y14n2y8n8y8n8y8n8y5ny2n6yn3y3ny2n8y4n2y2n8y8n10y3ny2n121yn13y",
  "n16y13n109yn3y2n3yn27yn4yn4yn2y2n8y4n4yn33y16n4yn843y26n1862y48nyn3y2nynynyn4yny2ny8n3ynynyn",
  "ynynynynynynynynynynynynynynynynynynynynynynynynynynynynynynynynynynynynynynynynynynynynynyn",
  "y2n7ynyn4yn12y38nyn5yn30995ynynynynynynynynynynynynynynynynynynynynynynyn19ynynynynynynynyny",
  "nynynynyny3n133ynynynynynyny3nynynynynynynynynynynynynynynynynynynynynynynynynynynynynynyn",
  "y10nynyn2ynynynynyn4ynyn2yny3nynynynynynynynynynyn5yn5ynynynynynynynyn4ynyn6ynynynynyn24y3ny",
  "ny3n821y43ny14n6y80n20288y7n12y5n1065y26n1229y40n136y36n155y11ny15ny7ny2n451yn2y3ny42ny9",
  "n1285y51n3021y32n21888y32n26010y26n26y7ny18n26y26n26y4nyny7ny11n26y26n26y26n26y26n26y26n26",
  "y26n26y26n26y26n26y26n26y28n28y25ny6n26y25ny6n26y25ny6n26y25ny6n26y25ny6nyn1844y10ny20n6y6",
  "n261y62n2228y34n988860"]

/-- The property `Math`. -/
def math : Runs := Runs.ofLines [
  "n43yn16y3n31yn29ynyn45yn4yn37yn31yn728y3n2yn26y2n2y3n527y3n6669yn27y3n11yn3yn13yn14y4n21y5",
  "n11y5n65y13n4yn3y2n4y5n18yn4yn2y10nyn2y6n6yn3y2n2y2ny3ny6n3y14nyn68y24ny6ny2n4y2n4y32nyn6y2",
  "n14y268n8y4n20y2n90yn30y27nyn24yn11y7n445y2n12y10n4y6n4y2n2y2n3y5n14ynyn2y6n11y8n5y2n57yny",
  "n29y4n9y3n336y64n256y512n48y21n2y6n53212yn823y6nyn162yn16y3n29ynyn29ynyn131yn6y4n54291y85n",
  "y71ny2n2yn2y2n2y4ny12nyny7ny65ny4n2y8ny7ny28ny4ny5nyn3y7ny340n2y292n2y50n5632y4ny27ny2nyn2yn",
  "y10ny4nynyn6yn4ynynyny3ny2nyn2ynynynynyny2nyn2y4ny7ny4ny4nyny10ny17n5y3ny5ny17n52y2n987406"]

/-- The property `Noncharacter_Code_Point`. -/
def noncharacterCodePoint : Runs := Runs.ofLines [
  "n64976y32n526y2n65534y2n65534y2n65534y2n65534y2n65534y2n65534y2n65534y2n65534y2n65534y2",
  "n65534y2n65534y2n65534y2n65534y2n65534y2n65534y2n65534y2"]

/-- The property `Pattern_Syntax`. -/
def patternSyntax : Runs := Runs.ofLines [
  "n33y15n10y7n26y4nyn26y4n34y7nyny2nyny2n4yn4yn3yn23yn31yn7960y24n8y15n2y19ny10n305y720n160",
  "y630n30y1132n512y128n385y3n4y25n15yn52493y2n261y2n1049017"]

/-- The property `Pattern_White_Space`. -/
def patternWhiteSpace : Runs := Runs.ofLines [
  "n9y5n18yn100yn8072y2n24y2n1105878"]

/-- The property `Prepended_Concatenation_Mark`. -/
def prependedConcatenationMark : Runs := Runs.ofLines [
  "n1536y6n215yn49yn384y2n80yn67546yn15yn1044274"]

/-- The property `Quotation_Mark`. -/
def quotationMark : Runs := Runs.ofLines [
  "n34yn4yn131yn15yn8028y8n25y2n3591yn457y4n13y3n52769y4n189yn4yn90y2n1048732"]

/-- The property `Radical`. -/
def radical : Runs := Runs.ofLines [
  "n11904y26ny89n12y214n1101866"]

/-- The property `Regional_Indicator`. -/
def regionalIndicator : Runs := Runs.ofLines [
  "n127462y26n986624"]

/-- The property `Sentence_Terminal`. -/
def sentenceTerminal : Runs := Runs.ofLines [
  "n33yn12yn16yn1353yn147y3n180yn43y3n246yn61ynyn3y2n293y2n1764y2n790yn4y2n773yn198y2n204yn5y",
  "n314y2n354y4n174y2n2y2n29y2n188y2n65y2n956y2n9y3n3556yn13yn22y2n429yn29948yn270y2n227yn3y",
  "n382y2n86y2n95yn152y2n147y3n144y2n249yn21094yn3y2n169yn12yn16yn65yn2804y2n1277y5n44y4n189y2",
  "n117y4n127y3n129y2n6yn16y2n88y2ny2n108yn417y2n373y2n5y15n105y2n249y3n517ynyn251y2n87y2n420y2",
  "n692y2n74y2n19241y2n133yn65y2n11yn851yn19974yn7656yn992631"]

/-- The property `Soft_Dotted`. -/
def softDotted : Runs := Runs.ofLines [
  "n105y2n196yn281yn30yn52yn20yn320yn98ynyn6409yn51yn13yn3yn132yn157yn421yn214y2n2866yn108453y2",
  "n50y2n50y2n50y2n50y2n50y2n50y2n50y2n50y2n50y2n50y2n50y2n50y2n2182yn305y2n26yn991127"]

/-- The property `Terminal_Punctuation`. -/
def terminalPunctuation : Runs := Runs.ofLines [
  "n33yn10ynyn11y2n3yn830yn8yn513yn57yn72yn14yny3n180yn43y11nyn235y2n54y15n31yn261y2n1268y2n172",
  "yn4y6n311y2n789y8n773yn124y3n71y2n157y3n3yn39y4n2y2n314y2n354y4n174y2ny3n29y2n188y5n62y2n956",
  "y2n9y3n3556yn13yn4yn10yny2n3y2n428y2n29947y2n269y3n227y5n382y2n86y2n95yn151y3n147y3n127yn16",
  "y2n249yn21092y3ny4n169yn10ynyn11y2n3yn65yn2yn1082yn48yn1158yn199yn310y2n152y6n68y6n89y4n952",
  "y5n44y4n189y7n112y4n127y3n129y2n6yn16y2n88y5n108yn417y3n12y2n358y4n3y15n105y2n249y3n517yny",
  "n251y2n87y2n4y2n414y3n45yn645y2n74y2n1323y5n17913y2n133yn65y3n10yn850y2n19974yn7655y4n992629"]

/-- The property `Unified_Ideograph`. -/
def unifiedIdeograph : Runs := Runs.ofLines [
  "n13312y6592n64y20992n23054y2nyny2n10ynyny2n2y3n67030y42720n32y4154n6y222n2y5762n14y7473n5151",
  "y4939n5y4192n908368"]

/-- The property `Uppercase`. -/
def uppercase : Runs := Runs.ofLines [
  "n65y26n101y23ny7n33ynynynynynynynynynynynynynynynynynynynynynynynynynynynyn2ynynynynynynyny",
  "n2ynynynynynynynynynynynynynynynynynynynynynynyny2nynyn3y2nyny2ny3n2y4ny2ny3n3y2ny2nynyny2ny",
  "n2yny2ny3nyny2n3yn7yn2yn2yn2ynynynynynynynyn2ynynynynynynynynyn2yn2yny3nynynynynynynynynynyn",
  "ynynynynynynynynynynynynynynynynynynyn7y2ny2n2yny4nynynynyn289ynyn3yn8yn6yny3nyny2ny17ny9n35",
  "yn2y3n3ynynynynynynynynynynynyn5yn2yny2n2y51n48ynynynynynynynynynynynynynynynynyn9ynynynynyn",
  "ynynynynynynynynynynynynynynynynynynynynynyny2nynynynynynyn2ynynynynynynynynynynynynynynynyn",
  "ynynynynynynynynynynynynynynynynynynynynynynynynynynynynynynynyn2y38n2889y38nyn5yn722y86",
  "n2202y43n2y3n320ynynynynynynynynynynynynynynynynynynynynynynynynynynynynynynynynynynynynynyn",
  "ynynynynynynynynynynynynynynynynynynynynynynynynynynynynynynynynynynynynyn9ynynynynynynynyny",
  "nynynynynynynynynynynynynynynynynynynynynynynynynynynynynynynynynynynynynynynynyn9y8n8y6n10",
  "y8n8y8n8y6n11ynynynyn8y8n72y4n12y4n12y4n12y5n11y4n262yn4yn3y3n2y3n2yn3y5n6ynynyny4n2y4n10y2",
  "n5yn26y16n19yn818y26n1840y48n48yny3n2ynynyny4nyn2yn8y3nynynynynynynynynynynynynynynynynynyny",
  "nynynynynynynynynynynynynynynynynynynynynynynynynynynynynynyn8ynyn4yn31053ynynynynynynynynyn",
  "ynynynynynynynynynynynynynyn19ynynynynynynynynynynynynynyn135ynynynynynynyn3ynynynynynynynyn",
  "ynynynynynynynynynynynynynynynynynynynynynynyn10ynyny2nynynynyn4ynyn2ynyn3ynynynynynynynynyn",
  "yny5ny5nynynynynynynyny4nyn6yn5ynyn28yn22315y26n1221y40n136y36n156y11ny15ny7ny2n1770y51n3053",
  "y32n21888y32n26016y26n26y26n26y26n26yny2n2yn2y2n2y4ny8n26y26n26y2ny4n2y8ny7n27y2ny4ny5nyn3y7",
  "n27y26n26y26n26y26n26y26n26y26n26y26n30y25n33y25n33y25n33y25n33y25n33yn4405y34n2062y26n6y26",
  "n6y26n986742"]

/-- The property `Variation_Selector`. -/
def variationSelector : Runs := Runs.ofLines [
  "n6155y3nyn58864y16n852720y240n196112"]

/-- The property `White_Space`. -/
def whiteSpace : Runs := Runs.ofLines [
  "n9y5n18yn100yn26yn5599yn2431y11n29y2n5yn47yn4000yn1101823"]

/-- The property `XID_Continue`. -/
def xidContinue : Runs := Runs.ofLines [
  "n48y10n7y26n4yny26n47yn10ynyn2yn5y23ny31ny458n4y12n14y5n7ynyn17y117ny2n3y3nyn6y5nyny20ny83n",
  "y139ny5n2y166ny38n2yn6y41n8y45nyny2ny2nyn8y27n4y4n29y11n5y74n4y102ny8n2y10ny19n2yn16y59n2",
  "y101n14y54n4yn2yn2y46n18y28n4y11n5y24ny6n9y74ny129n2y10ny19ny8n2y2n2y22ny7nyn3y4n2y9n2y2n2y4",
  "n8yn4y2ny5n2y12n10ynyn2y3ny6n4y2n2y22ny7ny2ny2ny2n2yny5n4y2n2y3n3yn7y4nyn7y16n11y3ny9ny3ny22",
  "ny7ny2ny5n2y10ny3ny3n2yn15y4n2y10n9y7ny3ny8n2y2n2y22ny7ny2ny5n2y9n2y2n2y3n7y3n4y2ny5n2y10ny",
  "n16y2ny6n3y3ny4n3y2nyny2n3y2n3y3n3y12n4y5n3y3ny4n2yn6yn14y10n16y13ny3ny23ny16n2y9ny3ny4n7y2n",
  "y3n2yn2y4n2y10n16y4ny8ny3ny23ny10ny5n2y9ny3ny4n7y2n6y2ny4n2y10ny3n12y13ny3ny51ny3ny5n5y4n7y5",
  "n2y10n10y6ny3ny18n3y24ny9nyn2y7n3yn4y6nyny8n6y10n2y2n13y58n5y15ny10n39y2nyny5ny24nyny23n2y5n",
  "yny7ny10n2y4n32yn23y2n6y10n11ynynyn4y10ny36n4y20ny18ny36n9yn57y74n6y78n2y38nyn5yn2y43ny333n",
  "y4n2y7nyny4n2y41ny4n2y33ny4n2y7nyny4n2y15ny57ny4n2y67n2y3n9y9n14y16n16y86n2y6n3y620n2y17ny26",
  "n5y75n3y11n7y22n9y22n11y20n12y13ny3ny2n12y84n3yn4y2n2y10n33y3ny11n6y89n7y43n5y70n10y31ny12n4",
  "y12n10y40n2y5n11y44n4y26n6y11n37y28n4y63ny29n2y11n6y10n13yn8y14ny16n49y77n3y10n17y9n12y116",
  "n12y56n8y10n3y49n2y9n7y43n2y3n16y3ny39n5y534n2y6n2y38n2y6n2y8nynynyny31n2y53ny7nyn3y3ny7n3y4",
  "n2y6n4y13n5y3ny7n66y2n19yn28yn13yn16y13n51y13n4yn3y12n17yn4yn2y10nyn2y6n6ynynyny16n2y4n5y5n4",
  "yn17y41n2679y229n6y9n12y38nyn5yn2y56n7yn15y24n9y7ny7ny7ny7ny7ny7ny7ny7ny32n517y3n25y15ny5n2",
  "y5n4y86n2y2n2y3ny90ny4n5y43ny94n17y32n48y16n512y6592n64y22157n67y46n2y269n3y28n20y48n4y10n",
  "y115n37y9n2y103n2y64n5y2nyny5n24y54n4yn19y52n12y70n10y10n6y24n3yny49n2y36n12y29n3y65n14y11n6",
  "y31ny55n9y14n2y10n6y23n3y73n24y3n2y16n2y5n10y6n2y6n2y6n9y7ny7ny43ny14n6y123ny2n2y10n6y11172",
  "n12y23n4y49n8452y366n2y106n38y7n12y5n5y12ny13ny5nyny2ny2ny108n33y139n6y218n18y64n2y54n40y10",
  "n6y16n16y16n3y2n24y3n33ynyn3ynynynyny126n19y10n7y26n4yny26n11y89n3y6n2y6n2y6n2y3n35y12ny26n",
  "y19ny2ny15n2y14n34y123n69y53n136yn130y29n3y49n15yn31y32n13y30n5y43n5y30n2y36n4y8ny5n42y158n2",
  "y10n6y36n4y36n4y40n8y52n12y11ny15ny7ny2ny11ny15ny7ny2n67y311n9y22n10y8n24y6ny42ny9n69y6n2yn",
  "y44ny2n3yn2y23n10y23n9y31n65y19ny2n10y22n10y26n70y56n6y2n64y4ny2n5y8ny3ny29n2y3n4yn32y29n3",
  "y29n35y8ny30n25y54n10y22n10y19n13y18n110y73n55y51n13y51n13y40n8y10n326y42ny2n3y2n75y32n10yn8",
  "y33n31y22n42y21n27y23n9y71n31y16n9y60n7yn13y25n7y10n6y53ny10n4y4n8y36n2yn9y69n4y4ny13nyn35",
  "y18ny37n6y4n62y7nyny4ny15ny10n7y59n5y10n6y4ny8n2y2n2y22ny7ny2ny5ny10n2y2n2y3n2yn6yn5y7n2y7n3",
  "y5n139y75n5y10n4y4n30y70nyn8y10n166y54n2y9n23y6n34y65n3yn11y10n38y57n7y10n54y27n2y15n4y10n6",
  "y7n185y59n101y74n21y8n2yn2y8ny2ny30ny2n2y9n12y10n70y8n2y46n2y8ny2n27y63n8yn8y74n3yn18y73n263",
  "y9ny45ny9n15y10n24y30n2y22ny14n73y7ny2ny44n3yny2ny9n8y10n6y6ny2ny37ny2ny6n7y10n310y23n9y17n",
  "y41n3y5n13y10n86yn79y922n102y111n17y196n2636y97n15y1072n16y22n4010y583n8633y569n7y31ny10n6",
  "y79ny10n6y30n2y5n11y55n9y4n12y10n9y21n5y19n688y64n128y75n4y57n7y17n64y2ny2n11y2n14y6136n8",
  "y1238n42y9n8935y4ny7ny2ny291n15yn29y3n2yn14y4n8y396n2308y107n5y13n3y9n7y10n3y2n4705y46n2y23",
  "n542y5n3y6n8y8n2y7n30y4n148y3n443y85ny71ny2n2yn2y2n2y4ny12nyny7ny65ny4n2y8ny7ny28ny4ny5nyn3",
  "y7ny340n2y25ny25ny31ny25ny31ny25ny31ny25ny31ny25ny8n2y50n512y55n4y50n8yn14yn22y5ny15n1104y31",
  "n6y6n213y7ny17n2y7ny2ny5n5y62n33yn112y45n3y14n2y10n4yn321y31n17y58n470y42n742y7ny4ny2ny15n",
  "y197n11y7n41y76n4y10n1190y4ny27ny2nyn2yny10ny4nynyn6yn4ynynyny3ny2nyn2ynynynynyny2nyn2y4ny7n",
  "y4ny4nyny10ny17n5y3ny5ny17n3380y10n1030y42720n32y4154n6y222n2y5762n14y7473n3103y542n1506",
  "y4939n5y4192n712016y240n196112"]

/-- The property `XID_Start`. -/
def xidStart : Runs := Runs.ofLines [
  "n65y26n6y26n47yn10yn4yn5y23ny31ny458n4y12n14y5n7ynyn129y5ny2n3y3nyn6yny3nyny20ny83ny139n8",
  "y166ny38n2yn6y41n71y27n4y4n45y43n35y2ny99nyn15y2n7y2n10y3n2yn16yny30n29y89n11yn24y33n9y2n4y",
  "n5y22n4yn9yn3yn23y25n7y11n5y24ny6n17y42n58y54n3yn18yn7y10n15y16n4y8n2y2n2y22ny7nyn3y4n3yn16y",
  "n13y2ny3n14y2n10yn8y6n4y2n2y22ny7ny2ny2ny2n31y4nyn19y3n16y9ny3ny22ny7ny2ny5n3yn18yn15y2n23y",
  "n11y8n2y2n2y22ny7ny2ny5n3yn30y2ny3n15yn17yny6n3y3ny4n3y2nyny2n3y2n3y3n3y12n22yn52y8ny3ny23n",
  "y16n3yn26y3n2yn2y2n30yn4y8ny3ny23ny10ny5n3yn31y2ny2n15y2n17y9ny3ny41n2yn16yn5y3n8y3n24y6n5",
  "y18n3y24ny9nyn2y7n58y48nyn13y7n58y2nyny5ny24nyny10nyn10yn2y5nyn21y4n32yn63y8ny36n27y5n115y43",
  "n20yn16y6n4y4n3yn3y2n7y3n4y13n12yn17y38nyn5yn2y43ny333ny4n2y7nyny4n2y41ny4n2y33ny4n2y7nyny4",
  "n2y15ny57ny4n2y67n37y16n16y86n2y6n3y620n2y17ny26n5y75n3y11n7y18n13y19n14y18n14y13ny3n15y52",
  "n35yn4yn67y89n7y41nyn5y70n10y31n49y30n2y5n11y44n4y26n54y23n9y53n82yn93y47n17y8n54y30n13y2n10",
  "y44n26y36n41y3n10y36n2y9n7y43n2y3n41y4ny6ny2n3yn5y192n64y278n2y6n2y38n2y6n2y8nynynyny31n2y53",
  "ny7nyn3y3ny7n3y4n2y6n4y13n5y3ny7n116yn13yn16y13n101yn4yn2y10nyn2y6n6ynynyny16n2y4n5y5n4yn17",
  "y41n2679y229n6y4n3y2n12y38nyn5yn2y56n7yn16y23n9y7ny7ny7ny7ny7ny7ny7ny7n550y3n25y9n7y5n2y5n4",
  "y86n6y3ny90ny4n5y43ny94n17y32n48y16n512y6592n64y22157n67y46n2y269n3y16n10y2n20y47n16y31n2y80",
  "n39y9n2y103n2y64n5y2nyny5n24y16ny3ny4ny23n29y52n14y50n62y6n3yny2n11y28n10y23n25y29n7y47n28y",
  "n16y5ny10n10y5ny41n23y3ny8n20y23n3yn3y50nyn3y2n2y5n2ynyn24y3n2y11n7y3n12y6n2y6n2y6n9y7ny7n",
  "y43ny14n6y115n29y11172n12y23n4y49n8452y366n2y106n38y7n12y5n5yny10ny13ny5nyny2ny2ny108n33y139",
  "n6y218n18y64n2y54n40y10n119ynyn3ynynynyny126n36y26n6y26n11y56n2y31n3y6n2y6n2y6n2y3n35y12ny26",
  "ny19ny2ny15n2y14n34y123n69y53n267y29n3y49n47y32n13y30n5y38n10y30n2y36n4y8ny5n42y158n18y36n4",
  "y36n4y40n8y52n12y11ny15ny7ny2ny11ny15ny7ny2n67y311n9y22n10y8n24y6ny42ny9n69y6n2yny44ny2n3yn2",
  "y23n10y23n9y31n65y19ny2n10y22n10y26n70y56n6y2n64yn15y4ny3ny29n42y29n3y29n35y8ny28n27y54n10",
  "y22n10y19n13y18n110y73n55y51n13y51n13y36n348y42n6y2n78y29n10yn8y22n42y18n46y21n27y23n12y53",
  "n57y2n2yn13y45n32y25n26y36n29yn2yn8y35n3yn12y48n14y4n21ynyn35y18ny25n19y2n63y7nyny4ny15ny10",
  "n7y47n38y8n2y2n2y22ny7ny2ny5n3yn18yn12y5n158y53n18y4n20y3n30y48n20y2nyn184y47n41y4n36y48n20y",
  "n59y43n13yn71y27n37y7n185y44n116y64n31y8n2yn2y8ny2ny24n15ynyn94y8n2y39n16ynyn28yn10y40n7yn21",
  "yn11y46n19yn18y73n263y9ny37n17yn49y30n112y7ny2ny38n21yn25y6ny2ny32n14yn327y19n15yny13ny34",
  "n124yn79y922n102y111n17y196n2636y97n15y1072n17y6n4025y583n8633y569n7y31n17y79n17y30n18y48n16",
  "y4n31y21n5y19n688y64n128y75n5yn66y13n64y2nyn28y6136n8y1238n42y9n8935y4ny7ny2ny291n15yn29y3n2",
  "yn14y4n8y396n2308y107n5y13n3y9n7y10n5990y85ny71ny2n2yn2y2n2y4ny12nyny7ny65ny4n2y8ny7ny28ny4n",
  "y5nyn3y7ny340n2y25ny25ny31ny25ny31ny25ny31ny25ny31ny25ny8n1844y31n6y6n261y62n146y45n10y7n16y",
  "n321y30n18y44n484y28n756y7ny4ny2ny15ny197n59y68n7yn1204y4ny27ny2nyn2yny10ny4nynyn6yn4ynynyn",
  "y3ny2nyn2ynynynynyny2nyn2y4ny7ny4ny4nyny10ny17n5y3ny5ny17n4420y42720n32y4154n6y222n2y5762n14",
  "y7473n3103y542n1506y4939n5y4192n908368"]

/-- The properties by their names in lower case without separators. -/
def names : List (List String × Runs) := [
  (["ahex", "asciihexdigit"], asciiHexDigit),
  (["alpha", "alphabetic"], alphabetic),
  (["bidic", "bidicontrol"], bidiControl),
  (["bidim", "bidimirrored"], bidiMirrored),
  (["caseignorable", "ci"], caseIgnorable),
  (["cased"], cased),
  (["changeswhencasefolded", "cwcf"], changesWhenCasefolded),
  (["changeswhencasemapped", "cwcm"], changesWhenCasemapped),
  (["changeswhenlowercased", "cwl"], changesWhenLowercased),
  (["changeswhentitlecased", "cwt"], changesWhenTitlecased),
  (["changeswhenuppercased", "cwu"], changesWhenUppercased),
  (["dash"], dash),
  (["defaultignorablecodepoint", "di"], defaultIgnorableCodePoint),
  (["dep", "deprecated"], deprecated),
  (["dia", "diacritic"], diacritic),
  (["emoji"], emoji),
  (["ecomp", "emojicomponent"], emojiComponent),
  (["emod", "emojimodifier"], emojiModifier),
  (["ebase", "emojimodifierbase"], emojiModifierBase),
  (["emojipresentation", "epres"], emojiPresentation),
  (["extendedpictographic", "extpict"], extendedPictographic),
  (["ext", "extender"], extender),
  (["graphemebase", "grbase"], graphemeBase),
  (["graphemeextend", "grext"], graphemeExtend),
  (["hex", "hexdigit"], hexDigit),
  (["idsb", "idsbinaryoperator"], idsBinaryOperator),
  (["idst", "idstrinaryoperator"], idsTrinaryOperator),
  (["idc", "idcontinue"], idContinue),
  (["ids", "idstart"], idStart),
  (["ideo", "ideographic"], ideographic),
  (["joinc", "joincontrol"], joinControl),
  (["loe", "logicalorderexception"], logicalOrderException),
  (["lower", "lowercase"], lowercase),
  (["math"], math),
  (["nchar", "noncharactercodepoint"], noncharacterCodePoint),
  (["patsyn", "patternsyntax"], patternSyntax),
  (["patternwhitespace", "patws"], patternWhiteSpace),
  (["pcm", "prependedconcatenationmark"], prependedConcatenationMark),
  (["qmark", "quotationmark"], quotationMark),
  (["radical"], radical),
  (["regionalindicator", "ri"], regionalIndicator),
  (["sentenceterminal", "sterm"], sentenceTerminal),
  (["sd", "softdotted"], softDotted),
  (["term", "terminalpunctuation"], terminalPunctuation),
  (["uideo", "unifiedideograph"], unifiedIdeograph),
  (["upper", "uppercase"], uppercase),
  (["variationselector", "vs"], variationSelector),
  (["space", "whitespace", "wspace"], whiteSpace),
  (["xidc", "xidcontinue"], xidContinue),
  (["xids", "xidstart"], xidStart)]

/-- The runs of the property that goes by a name. -/
def find? (name : String) : Option Runs :=
  (names.find? fun entry => entry.1.contains name).map Prod.snd

/-- Whether a character has a property. -/
def holds (runs : Runs) (c : Char) : Bool := runs.letterAt c.toNat == 'y'

end Property

end Unicode

end Conform
