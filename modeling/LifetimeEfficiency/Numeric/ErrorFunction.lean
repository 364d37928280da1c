/-!
# The error function

Quotients of polynomials, one for each band of the argument. Below one half the function itself is a multiple of its argument; from
there on the complement is `exp (-x²) / x` times the sum of a leading constant and a quotient. The quotients
are good to all digits of a double and the leading constants to ten decimals, so that the function is good to `5e-11` and has a
small step where two bands meet.
-/
namespace LifetimeEfficiency.ErrorFunction

/-- A quotient of polynomials in the distance from `shift`, and a constant beside it. -/
structure Band where
  shift : Float
  leading : Float
  numerator : List Float
  denominator : List Float

def horner (z : Float) : List Float → Float
  | [] => 0
  | c :: cs => c + z * horner z cs

def quotient (b : Band) (x : Float) : Float :=
  horner (x - b.shift) b.numerator / horner (x - b.shift) b.denominator

def inner : Band where
  shift := 0
  leading := 1.125
  numerator := [
    0.00337916709551257388990745, -0.00073695653048167948530905, -0.374732337392919607868241,
    0.0817442448733587196071743, -0.0421089319936548595203468, 0.0070165709512095756344528,
    -0.00495091255982435110337458, 0.000871646599037922480317225]
  denominator := [
    1, -0.218088218087924645390535, 0.412542972725442099083918, -0.0841891147873106755410271,
    0.0655338856400241519690695, -0.0120019604454941768171266, 0.00408165558926174048329689,
    -0.000615900721557769691924509]

def outer : List (Float × Band) := [
  (0.75, {
    shift := 0.5
    leading := 0.3440242112
    numerator := [
      -0.0361790390718262471360258, 0.292251883444882683221149, 0.281447041797604512774415,
      0.125610208862766947294894, 0.0274135028268930549240776, 0.00250839672168065762786937]
    denominator := [
      1, 1.8545005897903486499845, 1.43575803037831418074962, 0.582827658753036572454135,
      0.124810476932949746447682, 0.0113724176546353285778481] }),
  (1.25, {
    shift := 0.75
    leading := 0.419990927
    numerator := [
      -0.0397876892611136856954425, 0.153165212467878293257683, 0.191260295600936245503129,
      0.10276327061989304213645, 0.029637090615738836726027, 0.0046093486780275489468812,
      0.000307607820348680180548455]
    denominator := [
      1, 1.95520072987627704987886, 1.64762317199384860109595, 0.768238607022126250082483,
      0.209793185936509782784315, 0.0319569316899913392596356, 0.00213363160895785378615014] }),
  (2.25, {
    shift := 1.25
    leading := 0.4898625016
    numerator := [
      -0.0300838560557949717328341, 0.0538578829844454508530552, 0.0726211541651914182692959,
      0.0367628469888049348429018, 0.00964629015572527529605267, 0.00133453480075291076745275,
      0.0000778087599782504251917881]
    denominator := [
      1, 1.75967098147167528287343, 1.32883571437961120556307, 0.552528596508757581287907,
      0.133793056941332861912279, 0.0179509645176280768640766, 0.00104712440019937356634038,
      -0.0000000106640381820357337177643] }),
  (3.5, {
    shift := 2.25
    leading := 0.5317370892
    numerator := [
      -0.0117907570137227847827732, 0.014262132090538809896674, 0.0202234435902960820020765,
      0.00930668299990432009042239, 0.00213357802422065994322516, 0.00025022987386460102395382,
      0.0000120534912219588189822126]
    denominator := [
      1, 1.50376225203620482047419, 0.965397786204462896346934, 0.339265230476796681555511,
      0.0689740649541569716897427, 0.00771060262491768307365526, 0.000371421101531069302990367] }),
  (5.25, {
    shift := 3.5
    leading := 0.5489973426
    numerator := [
      -0.00546954795538729307482955, 0.00404190278731707110245394, 0.0054963369553161170521356,
      0.00212616472603945399437862, 0.000394984014495083900689956, 0.0000365565477064442377259271,
      0.00000135485897109932323253786]
    denominator := [
      1, 1.21019697773630784832251, 0.620914668221143886601045, 0.173038430661142762569515,
      0.0276550813773432047594539, 0.00240625974424309709745382, 0.0000891811817251336577241006,
      -0.00000000000465528836283382684461025] }),
  (8, {
    shift := 5.25
    leading := 0.5571740866
    numerator := [
      -0.00270722535905778347999196, 0.0013187563425029400461378, 0.00119925933261002333923989,
      0.00027849619811344664248235, 0.0000267822988218331849989363,
      0.000000923043672315028197865066]
    denominator := [
      1, 0.814632808543141591118279, 0.268901665856299542168425, 0.0449877216103041118694989,
      0.00381759663320248459168994, 0.000131571897888596914350697,
      0.00000000000404815359675764138445257] })]

/-- One less the function, from one half on; beyond the bands nothing of it is left in a double. -/
def complement (x : Float) : Float :=
  match outer.find? fun band => x < band.1 with
  | some (_, b) =>
    let g := Float.exp (-x * x) / x
    g * b.leading + g * quotient b x
  | none => 0

def nonnegative (x : Float) : Float :=
  if x < 0.5 then x * inner.leading + x * quotient inner x else 1 - complement x

def erf (x : Float) : Float :=
  if x.isNaN then x else if x < 0 then -nonnegative (-x) else nonnegative x

end LifetimeEfficiency.ErrorFunction
