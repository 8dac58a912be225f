import Quartermaster.Planner

/-!
# Sample maps

The standard map is a strip of four provinces for two players, with a sea zone at each end of
the border:

```text
 [Red Capital] - [Red Province] - [Blue Province] - [Blue Capital]
       \            /                    \              /
        [West Sea] ------------------------- [East Sea]
```

Both capitals are original factory sites worth 8. The provinces are worth 3, and each holds a
factory that was built later, so that its output is bounded by its worth.

The smaller maps have one player only. `planner` plans on any of them without drawing numbers.
-/

namespace Quartermaster.Samples

def red : PlayerId := ⟨1⟩
def blue : PlayerId := ⟨2⟩

def infantry : KindId := ⟨1⟩
def artillery : KindId := ⟨2⟩
def tank : KindId := ⟨3⟩
def fighter : KindId := ⟨4⟩
def transport : KindId := ⟨5⟩
def destroyer : KindId := ⟨6⟩
def cruiser : KindId := ⟨7⟩
def factory : KindId := ⟨8⟩

def redCapital : TerritoryId := ⟨1⟩
def redProvince : TerritoryId := ⟨2⟩
def blueProvince : TerritoryId := ⟨3⟩
def blueCapital : TerritoryId := ⟨4⟩
def westSea : TerritoryId := ⟨10⟩
def eastSea : TerritoryId := ⟨11⟩

/-- An amount of production units. -/
def price (amount : Int) : Holdings := .single .productionUnits amount

/-- The kinds of piece on every sample map. -/
def kinds : List PieceKind := [
  { id := infantry, name := "infantry", attack := 1, defense := 2, value := 3 },
  { id := artillery, name := "artillery", attack := 2, defense := 2, value := 4 },
  { id := tank, name := "tank", attack := 3, defense := 3, movement := 2, value := 6 },
  { id := fighter, name := "fighter", attack := 3, defense := 4, domain := .air, movement := 4,
    value := 10 },
  { id := transport, name := "transport", attack := 0, defense := 1, domain := .sea,
    movement := 2, transportCapacity := 2, value := 7 },
  { id := destroyer, name := "destroyer", attack := 2, defense := 2, domain := .sea,
    movement := 2, value := 8 },
  { id := cruiser, name := "cruiser", attack := 3, defense := 3, domain := .sea, movement := 2,
    canBombard := true, value := 12 },
  { id := factory, name := "factory", attack := 0, defense := 0, isFactory := true,
    movement := 0, value := 15 }]

/-- A rule that sells one batch of a kind. -/
def saleOf (name : String) (kind : KindId) (quantity : Nat) (cost : Int) : ProductionRule :=
  { name, costs := price cost, results := .ofList [(kind, quantity)] }

/-- A rule named for its batch. -/
def rule (kind : KindId) (quantity : Nat) (cost : Int) : ProductionRule :=
  saleOf ("buy" ++ toString quantity ++ "x" ++ kind.label) kind quantity cost

/-- One piece of each kind for its price. -/
def frontier : List ProductionRule := [
  saleOf "buyInfantry" infantry 1 3,
  saleOf "buyArtillery" artillery 1 4,
  saleOf "buyTank" tank 1 6,
  saleOf "buyFighter" fighter 1 10,
  saleOf "buyTransport" transport 1 7,
  saleOf "buyDestroyer" destroyer 1 8,
  saleOf "buyCruiser" cruiser 1 12,
  saleOf "buyFactory" factory 1 15]

/-- A land territory with an owner. -/
def land (id : TerritoryId) (name : String) (owner : PlayerId) (site : Site)
    (neighbors : List TerritoryId) (pieces : List Piece) : Territory :=
  Territory.addPieces
    { id, name, isWater := false, owner := some owner, site := some site,
      neighbors := .ofList neighbors } pieces

/-- A sea zone. -/
def sea (id : TerritoryId) (name : String) (neighbors : List TerritoryId) : Territory :=
  { id, name, isWater := true, neighbors := .ofList neighbors }

/-- A piece of a kind. -/
def piece (number : Nat) (kind : KindId) (owner : PlayerId) : Piece :=
  { id := ⟨number⟩, kind, owner }

/-- The standard map, with a budget for each side. -/
def standard (budget : Int) : Snapshot where
  resourceNames := .ofList [(.productionUnits, "PUs")]
  roster := .ofList kinds
  players := .ofList ([(red, "Red"), (blue, "Blue")].map fun p =>
    (p.1, { id := p.1, name := p.2, isComputer := true, holdings := price budget, frontier }))
  territories := .ofList ([
    land redCapital "Red Capital" red { production := 8, originalFactory := true }
      [redProvince, westSea] [piece 1 factory red],
    land redProvince "Red Province" red { production := 3 }
      [redCapital, blueProvince, westSea] [piece 2 factory red, piece 3 infantry red],
    land blueProvince "Blue Province" blue { production := 3 }
      [redProvince, blueCapital, eastSea] [piece 4 factory blue, piece 5 infantry blue],
    land blueCapital "Blue Capital" blue { production := 8, originalFactory := true }
      [blueProvince, eastSea] [piece 6 factory blue],
    sea westSea "West Sea" [redCapital, redProvince, eastSea],
    sea eastSea "East Sea" [blueProvince, blueCapital, westSea]].map fun t => (t.id, t))

/-- The standard map with a cap on the pieces placed in one territory. -/
def capped (budget cap : Int) : Snapshot :=
  let s := standard budget
  { s with players := s.players.map fun p =>
      { p with rules := some { placementCap := some cap } } }

/-- One factory territory beside one sea zone, for one player. -/
def singleFactory (production budget : Int) (rules : List ProductionRule) : Snapshot where
  roster := .ofList kinds
  players := .ofList [(red,
    { id := red, name := "Red", isComputer := true, holdings := price budget, frontier := rules })]
  territories := .ofList ([
    land redProvince "Red Province" red { production } [westSea] [piece 1 factory red],
    sea westSea "West Sea" [redProvince]].map fun t => (t.id, t))

/-- A port: land of Red's with a factory that was built later, and a garrison. -/
def port (id : TerritoryId) (name : String) (production : Int) (zones : List TerritoryId)
    (garrison : List Piece) : Territory :=
  Territory.withStack
    { id, name, isWater := false, owner := some red, site := some { production },
      neighbors := .ofList zones } ⟨piece id.number factory red :: garrison⟩

/-- Two ports for one player, each beside sea zones of its own choice. The garrison stands in the
first. -/
def twinPorts (capitalZones provinceZones : List TerritoryId) (production budget : Int)
    (rules : List ProductionRule) (garrison : List Piece) : Snapshot where
  roster := .ofList kinds
  players := .ofList [(red,
    { id := red, name := "Red", isComputer := true, holdings := price budget, frontier := rules })]
  territories :=
    let portsBeside (zone : TerritoryId) :=
      (if zone ∈ capitalZones then [redCapital] else []) ++
        if zone ∈ provinceZones then [redProvince] else []
    .ofList ([
      port redCapital "Red Capital" production capitalZones garrison,
      port redProvince "Red Province" production provinceZones [],
      sea westSea "West Sea" (portsBeside westSea),
      sea eastSea "East Sea" (portsBeside eastSea)].map fun t => (t.id, t))

/-- A map with another ceiling on one kind. -/
def withCeiling (s : Snapshot) (kind : KindId) (limit : BuildLimit) : Snapshot :=
  { s with roster := .ofList (s.roster.toList.map fun k =>
      if k.id = kind then { k with buildLimit := limit } else k) }

/-- A single factory with a ceiling on tanks, some of which are on the board already. -/
def planningCase (production budget : Int) (rules : List ProductionRule) (tankLimit : BuildLimit)
    (tanks : Nat) : Snapshot :=
  let s := withCeiling (singleFactory production budget rules) tank tankLimit
  { s with
    territories := s.territories.map fun t =>
      if t.id = redProvince then
        t.addPieces ((List.range tanks).map fun i => piece (100 + i) tank red)
      else t }

/-- Two ports beside the same two seas, with room and money for one ship each. -/
def sharedSeas : Snapshot :=
  twinPorts [westSea, eastSea] [westSea, eastSea] 1 16 [saleOf "buyDestroyer" destroyer 1 8] []

/-- Two ports with a sea each. Three infantry are allowed, and one is there already. -/
def separateSeas : Snapshot :=
  withCeiling
    (twinPorts [westSea] [eastSea] 2 40
      [saleOf "buyInfantry" infantry 1 3, saleOf "buyDestroyer" destroyer 1 8]
      [piece 9 infantry red])
    infantry (.atMost 3)

/-- The separate seas, but that the destroyers go by the name of the infantry. -/
def homonyms : Snapshot :=
  { separateSeas with
    roster := .ofList (separateSeas.roster.toList.map fun k =>
      if k.id = destroyer then { k with name := "infantry" } else k) }

/-- Two ports with a ceiling on tanks, one of which is on the board. Money is for five more. -/
def tankPorts (production : Int) (limit : Nat) : Snapshot :=
  withCeiling
    (twinPorts [westSea] [eastSea] production 30 [saleOf "buyTank" tank 1 6] [piece 9 tank red])
    tank (.atMost limit)

/-- Two ports beside one sea for a player who may place anywhere, with money for one ship. The first
was conquered this turn. -/
def conqueredPort : Snapshot :=
  let s := twinPorts [westSea] [westSea] 2 8 [saleOf "buyDestroyer" destroyer 1 8] []
  { s with
    players := s.players.map fun p => { p with rules := some { placesAnywhere := true } }
    territories := s.territories.map fun t =>
      { t with conqueredThisTurn := decide (t.id = redCapital) } }

/-- Two ports beside one sea: the capital, which has no bound, and a province worth as much as a
word can tell. Red has the technology that makes its factories produce more still. -/
def vastProvince : Snapshot :=
  let s := twinPorts [westSea] [westSea] 8 6 [saleOf "buyTank" tank 1 6] []
  { s with
    players := s.players.map fun p => { p with techs := { increasedProduction := true } }
    territories := s.territories.map fun t =>
      { t with site := t.site.map fun site =>
          if t.id = redCapital then { site with originalFactory := true }
          else { site with production := wordValues 31 - 1 } } }

/-- Two offers of tanks so strong that their scores add up beyond the fixed-point range. -/
def mightyTanks : Snapshot :=
  { twinPorts [westSea] [eastSea] 2 10
      [saleOf "buyTank" tank 1 1, saleOf "buyTankAgain" tank 1 1] [] with
    roster := .ofList (kinds.map fun k =>
      if k.id = tank then { k with attack := strengthLimit } else k) }

/-- Two ports of Red's with a sea each, guests in the first, and Blue with a budget of its own. -/
def visitedPorts (guests : List Piece) (budget : Int) : Snapshot :=
  let s := twinPorts [westSea] [eastSea] 2 20
    [saleOf "buyInfantry" infantry 1 3, saleOf "buyDestroyer" destroyer 1 8] guests
  { s with
    players := s.players.insert blue { id := blue, name := "Blue", holdings := price budget } }

/-- The same, but that the record entered for Red carries Blue's number. -/
def misfiledPorts (guests : List Piece) : Snapshot :=
  let s := visitedPorts guests 0
  { s with players := s.players.map fun r => { r with id := blue } }

/-- A kind that makes pieces of its own number, whatever the worth of the land, but belongs at
sea. -/
def shipyard : PieceKind :=
  { id := ⟨9⟩, name := "shipyard", domain := .sea, isFactory := true, fixedOutput := some 6 }

/-- An original factory site of Red's, worth 4, with all manner of factories: two that were Blue's,
one of them damaged; one aboard a transport; a shipyard on dry land; and one of Blue's. -/
def foundry : Territory :=
  Territory.withStack
    { id := redCapital, name := "Red Capital", isWater := false, owner := some red,
      site := some { production := 4, originalFactory := true } }
    ⟨[{ piece 1 factory red with firstOwner := some blue },
      { piece 2 factory red with firstOwner := some blue, damage := 3 },
      { piece 3 factory red with carrier := some ⟨9⟩ },
      piece 4 shipyard.id red,
      piece 5 factory blue]⟩

/-- The foundry alone. Red has the technology that makes factories produce more. -/
def mixedWorks : Snapshot where
  roster := .ofList (shipyard :: kinds)
  players := .ofList [(red, { id := red, name := "Red", techs := { increasedProduction := true } })]
  territories := .ofList [(redCapital, foundry)]

/-- Two ports side by side, of which Blue has taken the second. Red's lies beside both seas, Blue's
beside the east sea. -/
def contestedSea : Snapshot :=
  let s := twinPorts [redProvince, westSea, eastSea] [redCapital, eastSea] 2 0 [] []
  { s with
    territories := s.territories.map fun t =>
      if t.id = redProvince then { t with owner := some blue } else t }

/-- Infantry in Red's port beside the contested sea, a transport and a cruiser west of it, and a
cruiser in the east. -/
def contestants : Yards :=
  .ofList [(redCapital, {
    territory := redCapital, capacity := .unlimited, remaining := .unlimited
    places := [
      { territory := redCapital, isWater := false, queue := [piece 101 infantry red] },
      { territory := westSea, isWater := true,
        queue := [piece 102 transport red, piece 103 cruiser red] },
      { territory := eastSea, isWater := true, queue := [piece 104 cruiser red] }] })]

/-- Two ports side by side and two seas side by side. Red may not enter its own second port, and
nobody the east sea. One infantry more is allowed. -/
def barredWays : Snapshot :=
  let s := withCeiling
    (twinPorts [redProvince, westSea] [redCapital, eastSea] 2 40
      [saleOf "buyInfantry" infantry 1 3, saleOf "buyDestroyer" destroyer 1 8]
      [piece 9 infantry red])
    infantry (.atMost 2)
  { s with
    players := s.players.map fun p =>
      { p with rules := some { movementBans := .ofList [redProvince] } }
    territories := s.territories.map fun t =>
      if t.id = westSea then { t with neighbors := .ofList [redCapital, eastSea] }
      else if t.id = eastSea then
        { t with neighbors := .ofList [redProvince, westSea], site := some { impassable := true } }
      else t }

/-- A planner that always takes the best. -/
def planner : Planner := .ofConfig (.deterministic (.seeded 0)) 0

end Quartermaster.Samples
