import Quartermaster.Archive.Snapshot
import Quartermaster.Proofs.Codec
import Quartermaster.Proofs.Garrison
import Quartermaster.Proofs.Outcome
import Quartermaster.Samples

/-!
# Stored snapshots

What a snapshot needs in order to be found again in its bytes: every number fits the bytes that it
gets, no list or text is too long for its length to be written, and every territory has come about
as territories do, so that the tally, which is not stored, is the one that a reader takes. Nothing
is asked of keys or of the numbers of pieces, which may repeat. Exactly these snapshots are ever
read (`Snapshot.storable_iff`). The schemas of the board are faithful on such values both as bytes
and as text.
-/

namespace Quartermaster

open Archive (ListOf SetOf MapOf byteValues shortWidth wordWidth)

/-! ## What can be stored -/

namespace Archive

/-- An identifier of four bytes. -/
abbrev ShortId {noun : Noun} (i : Ident noun) : Prop := i.number < byteValues shortWidth

/-- An identifier of eight bytes. -/
abbrev WordId {noun : Noun} (i : Ident noun) : Prop := i.number < byteValues wordWidth

/-- An amount or statistic of four bytes. -/
abbrev ShortAmount (n : Int) : Prop := Schema.fitsInt shortWidth n

/-- A count of four bytes. -/
abbrev ShortCount (n : Nat) : Prop := n < byteValues shortWidth

/-- Text whose length can be written. -/
abbrev ShortText (s : String) : Prop := s.utf8ByteSize < byteValues wordWidth

end Archive

open Archive (ShortId WordId ShortAmount ShortCount ShortText)

def Holdings.Storable (h : Holdings) : Prop := MapOf ShortId ShortAmount h.amounts

def BuildLimit.Storable : BuildLimit → Prop
  | .atMost n => n < byteValues Archive.Schema.variantWidth
  | _ => True

structure PieceKind.Storable (k : PieceKind) : Prop where
  id : ShortId k.id
  name : ShortText k.name
  attack : ShortAmount k.attack
  defense : ShortAmount k.defense
  movement : ShortAmount k.movement
  hitPoints : ShortAmount k.hitPoints
  fixedOutput : ∀ n ∈ k.fixedOutput, ShortAmount n
  transportCapacity : ShortAmount k.transportCapacity
  buildLimit : k.buildLimit.Storable
  value : ShortAmount k.value

def Roster.Storable (r : Roster) : Prop := MapOf ShortId PieceKind.Storable r.kinds

structure Piece.Storable (p : Piece) : Prop where
  id : WordId p.id
  kind : ShortId p.kind
  owner : ShortId p.owner
  firstOwner : ∀ i ∈ p.firstOwner, ShortId i
  carrier : ∀ i ∈ p.carrier, WordId i
  damage : ShortAmount p.damage

def Stack.Storable (s : Stack) : Prop := ListOf Piece.Storable s.pieces

structure Site.Storable (s : Site) : Prop where
  production : ShortAmount s.production
  originalOwner : ∀ i ∈ s.originalOwner, ShortId i

structure TerritoryRecord.Storable (r : TerritoryRecord) : Prop where
  id : ShortId r.id
  name : ShortText r.name
  owner : ∀ i ∈ r.owner, ShortId i
  neighbors : SetOf ShortId r.neighbors
  site : ∀ s ∈ r.site, s.Storable
  stack : r.stack.Storable

/-- What is stored of the territory fits, and its tally is that of its stack. -/
structure Territory.Storable (t : Territory) : Prop where
  record : t.toRecord.Storable
  built : t.Built

structure ProductionRule.Storable (r : ProductionRule) : Prop where
  name : ShortText r.name
  costs : r.costs.Storable
  results : MapOf ShortId ShortCount r.results

structure PlayerRules.Storable (r : PlayerRules) : Prop where
  placementCap : ∀ n ∈ r.placementCap, ShortAmount n
  placementBans : SetOf ShortId r.placementBans
  movementBans : SetOf ShortId r.movementBans

structure Player.Storable (p : Player) : Prop where
  id : ShortId p.id
  name : ShortText p.name
  holdings : p.holdings.Storable
  frontier : ListOf ProductionRule.Storable p.frontier
  rules : ∀ r ∈ p.rules, r.Storable

structure Snapshot.Storable (s : Snapshot) : Prop where
  round : ShortCount s.round
  resourceNames : MapOf ShortId ShortText s.resourceNames
  roster : s.roster.Storable
  players : MapOf ShortId Player.Storable s.players
  territories : MapOf ShortId Territory.Storable s.territories
  alliances : ListOf (SetOf ShortId) s.alliances

/-! ## Schemas of the board -/

namespace Archive

variable {depth : Nat}

theorem faithful_resourceId : resourceId.toSchema.Faithful (depth + 1) ShortId :=
  faithful_identSchema ..

theorem faithful_kindId : kindId.toSchema.Faithful (depth + 1) ShortId := faithful_identSchema ..

theorem faithful_pieceId : pieceId.toSchema.Faithful (depth + 1) WordId := faithful_identSchema ..

theorem faithful_territoryId : territoryId.toSchema.Faithful (depth + 1) ShortId :=
  faithful_identSchema ..

theorem faithful_playerId : playerId.toSchema.Faithful (depth + 1) ShortId :=
  faithful_identSchema ..

theorem faithful_amount : amount.Faithful depth ShortAmount := Schema.faithful_integer shortWidth

theorem faithful_quantity : quantity.Faithful depth ShortCount := Schema.faithful_natural shortWidth

theorem faithful_holdings : holdings.Faithful (depth + 3) Holdings.Storable := by
  refine (faithful_resourceId.map faithful_amount).wrapped.via ?_ ?_
  · intro h hh
    exact ⟨hh, rfl⟩
  · intro m hm
    exact hm

theorem faithful_domain : domain.Faithful (depth + 1) fun _ => True := by
  refine Schema.faithful_choice (by decide) (by decide) ?_ ?_ ?_
  · intro d _
    cases d
    · exact .inl ⟨"Land", rfl⟩
    · exact .inl ⟨"Sea", rfl⟩
    · exact .inl ⟨"Air", rfl⟩
  · intro _ _ _
    trivial
  · intro _ _ _ _ _
    trivial

theorem faithful_buildLimit : buildLimit.Faithful (depth + 1) BuildLimit.Storable := by
  refine Schema.faithful_choice (by decide) (by decide) ?_ ?_ ?_
  · intro l hl
    cases l with
    | unlimited => exact .inl ⟨"Unlimited", rfl⟩
    | forbidden => exact .inl ⟨"Forbidden", rfl⟩
    | atMost n => exact .inr ⟨"AtMost", .atMost, rfl, rfl, hl⟩
  · intro name l hl
    simp only [List.mem_cons, Schema.Variant.plain.injEq, reduceCtorEq, List.not_mem_nil,
      or_false] at hl
    rcases hl with ⟨-, rfl⟩ | ⟨-, rfl⟩ <;> trivial
  · intro name build n hbuild hn
    simp only [List.mem_cons, Schema.Variant.counted.injEq, reduceCtorEq, List.not_mem_nil,
      or_false, false_or] at hbuild
    obtain ⟨-, rfl⟩ := hbuild
    exact hn

theorem faithful_pieceKind : pieceKind.Faithful (depth + 2) PieceKind.Storable := by
  refine Schema.Faithful.via (.record (by decide) <|
    .field faithful_kindId <|
    .field Schema.faithful_text <|
    .fieldOr faithful_domain <|
    .fieldOr faithful_amount <|
    .fieldOr faithful_amount <|
    .fieldOr faithful_amount <|
    .fieldOr faithful_amount <|
    .fieldOr Schema.faithful_bool <|
    .fieldOr faithful_amount.optional <|
    .fieldOr faithful_amount <|
    .fieldOr Schema.faithful_bool <|
    .fieldOr faithful_buildLimit <|
    .fieldOr faithful_amount .done) ?_ ?_
  · intro k hk
    exact ⟨⟨hk.id, hk.name, trivial, hk.attack, hk.defense, hk.movement, hk.hitPoints, trivial,
      hk.fixedOutput, hk.transportCapacity, trivial, hk.buildLimit, hk.value, trivial⟩, rfl⟩
  · rintro ⟨id, name, domain, attack, defense, movement, hitPoints, isFactory, fixedOutput,
      transportCapacity, canBombard, buildLimit, value, _⟩ ⟨hid, hname, -, hattack, hdefense,
      hmovement, hhitPoints, -, hfixedOutput, htransportCapacity, -, hbuildLimit, hvalue, -⟩
    exact ⟨hid, hname, hattack, hdefense, hmovement, hhitPoints, hfixedOutput,
      htransportCapacity, hbuildLimit, hvalue⟩

theorem faithful_roster : roster.Faithful (depth + 4) Roster.Storable := by
  refine Schema.Faithful.via (.record (by decide) <|
    .field (faithful_kindId.map faithful_pieceKind) .done) ?_ ?_
  · intro r hr
    exact ⟨⟨hr, trivial⟩, rfl⟩
  · rintro ⟨kinds, _⟩ ⟨hkinds, -⟩
    exact hkinds

theorem faithful_piece : piece.Faithful (depth + 3) Piece.Storable := by
  refine Schema.Faithful.via (.record (by decide) <|
    .field faithful_pieceId <|
    .field faithful_kindId <|
    .field faithful_playerId <|
    .fieldOr faithful_playerId.optional <|
    .fieldOr faithful_pieceId.optional <|
    .fieldOr faithful_amount .done) ?_ ?_
  · intro p hp
    exact ⟨⟨hp.id, hp.kind, hp.owner, hp.firstOwner, hp.carrier, hp.damage, trivial⟩, rfl⟩
  · rintro ⟨id, kind, owner, firstOwner, carrier, damage, _⟩
      ⟨hid, hkind, howner, hfirstOwner, hcarrier, hdamage, -⟩
    exact ⟨hid, hkind, howner, hfirstOwner, hcarrier, hdamage⟩

theorem faithful_stack : stack.Faithful (depth + 5) Stack.Storable := by
  refine Schema.Faithful.via (.record (by decide) <| .field faithful_piece.list .done) ?_ ?_
  · intro s hs
    exact ⟨⟨hs, trivial⟩, rfl⟩
  · rintro ⟨pieces, _⟩ ⟨hpieces, -⟩
    exact hpieces

theorem faithful_site : site.Faithful (depth + 3) Site.Storable := by
  refine Schema.Faithful.via (.record (by decide) <|
    .fieldOr faithful_amount <|
    .fieldOr Schema.faithful_bool <|
    .fieldOr faithful_playerId.optional <|
    .fieldOr Schema.faithful_bool <|
    .fieldOr Schema.faithful_bool .done) ?_ ?_
  · intro s hs
    exact ⟨⟨hs.production, trivial, hs.originalOwner, trivial, trivial, trivial⟩, rfl⟩
  · rintro ⟨production, originalFactory, originalOwner, victoryCity, impassable, _⟩
      ⟨hproduction, -, horiginalOwner, -⟩
    exact ⟨hproduction, horiginalOwner⟩

theorem faithful_territoryRecord :
    territoryRecord.Faithful (depth + 6) TerritoryRecord.Storable := by
  refine Schema.Faithful.via (.record (by decide) <|
    .field faithful_territoryId <|
    .field Schema.faithful_text <|
    .field Schema.faithful_bool <|
    .fieldOr faithful_playerId.optional <|
    .fieldOr faithful_territoryId.set <|
    .fieldOr Schema.faithful_bool <|
    .fieldOr faithful_site.optional <|
    .fieldOr faithful_stack .done) ?_ ?_
  · intro r hr
    exact ⟨⟨hr.id, hr.name, trivial, hr.owner, hr.neighbors, trivial, hr.site, hr.stack, trivial⟩,
      rfl⟩
  · rintro ⟨id, name, isWater, owner, neighbors, conqueredThisTurn, site, stack, _⟩
      ⟨hid, hname, -, howner, hneighbors, -, hsite, hstack, -⟩
    exact ⟨hid, hname, howner, hneighbors, hsite, hstack⟩

/-- A reader takes the tally anew, which is the tally that the territory had. -/
theorem faithful_territory : territory.Faithful (depth + 6) Territory.Storable := by
  refine faithful_territoryRecord.via ?_ ?_
  · intro t ht
    refine ⟨ht.record, ?_⟩
    -- only here does it matter how the territory came about
    have htally := Territory.built_iff.mp ht.built
    cases t
    exact congrArg _ htally.symm
  · intro r hr
    exact ⟨hr, .ofRecord r, [], .ofRecord r, rfl⟩

theorem faithful_productionRule : productionRule.Faithful (depth + 4) ProductionRule.Storable := by
  refine Schema.Faithful.via (.record (by decide) <|
    .field Schema.faithful_text <|
    .field faithful_holdings <|
    .field (faithful_kindId.map faithful_quantity) .done) ?_ ?_
  · intro r hr
    exact ⟨⟨hr.name, hr.costs, hr.results, trivial⟩, rfl⟩
  · rintro ⟨name, costs, results, _⟩ ⟨hname, hcosts, hresults, -⟩
    exact ⟨hname, hcosts, hresults⟩

theorem faithful_playerRules : playerRules.Faithful (depth + 3) PlayerRules.Storable := by
  refine Schema.Faithful.via (.record (by decide) <|
    .fieldOr Schema.faithful_bool <|
    .fieldOr faithful_amount.optional <|
    .fieldOr faithful_territoryId.set <|
    .fieldOr faithful_territoryId.set .done) ?_ ?_
  · intro r hr
    exact ⟨⟨trivial, hr.placementCap, hr.placementBans, hr.movementBans, trivial⟩, rfl⟩
  · rintro ⟨placesAnywhere, placementCap, placementBans, movementBans, _⟩
      ⟨-, hplacementCap, hplacementBans, hmovementBans, -⟩
    exact ⟨hplacementCap, hplacementBans, hmovementBans⟩

theorem faithful_techs : techs.Faithful (depth + 1) fun _ => True := by
  refine Schema.Faithful.via (.record (by decide) <| .fieldOr Schema.faithful_bool .done) ?_ ?_
  · intro t _
    exact ⟨⟨trivial, trivial⟩, rfl⟩
  · intro _ _
    trivial

theorem faithful_player : player.Faithful (depth + 6) Player.Storable := by
  refine Schema.Faithful.via (.record (by decide) <|
    .field faithful_playerId <|
    .field Schema.faithful_text <|
    .fieldOr Schema.faithful_bool <|
    .fieldOr faithful_holdings <|
    .fieldOr faithful_productionRule.list <|
    .fieldOr faithful_playerRules.optional <|
    .fieldOr faithful_techs .done) ?_ ?_
  · intro p hp
    exact ⟨⟨hp.id, hp.name, trivial, hp.holdings, hp.frontier, hp.rules, trivial, trivial⟩, rfl⟩
  · rintro ⟨id, name, isComputer, holdings, frontier, rules, techs, _⟩
      ⟨hid, hname, -, hholdings, hfrontier, hrules, -⟩
    exact ⟨hid, hname, hholdings, hfrontier, hrules⟩

theorem faithful_snapshot : snapshot.Faithful (depth + 8) Snapshot.Storable := by
  refine Schema.Faithful.via (.record (by decide) <|
    .fieldOr faithful_quantity <|
    .fieldOr (faithful_resourceId.map Schema.faithful_text) <|
    .fieldOr faithful_roster <|
    .fieldOr (faithful_playerId.map faithful_player) <|
    .fieldOr (faithful_territoryId.map faithful_territory) <|
    .fieldOr faithful_playerId.set.list .done) ?_ ?_
  · intro s hs
    exact ⟨⟨hs.round, hs.resourceNames, hs.roster, hs.players, hs.territories, hs.alliances,
      trivial⟩, rfl⟩
  · rintro ⟨round, resourceNames, roster, players, territories, alliances, _⟩
      ⟨hround, hresourceNames, hroster, hplayers, hterritories, halliances, -⟩
    exact ⟨hround, hresourceNames, hroster, hplayers, hterritories, halliances⟩

end Archive

/-! ## Snapshots -/

namespace Snapshot

variable {s : Snapshot}

theorem ofBytes_eq_ok_iff {bytes : List UInt8} :
    ofBytes bytes = .ok s ↔ ∃ rest, Archive.snapshot.ofBytes bytes = some (s, rest) := by
  unfold ofBytes
  cases Archive.snapshot.ofBytes bytes with
  | none =>
    constructor
    · intro h
      cases h
    · rintro ⟨_, h⟩
      cases h
  | some found =>
    constructor
    · intro h
      exact ⟨found.2, congrArg (fun s => some (s, found.2)) (Except.ok.inj h)⟩
    · rintro ⟨rest, h⟩
      rw [Option.some.inj h]

theorem ofBytes_toBytes_append (h : s.Storable) (rest : List UInt8) :
    ofBytes (s.toBytes ++ rest) = .ok s :=
  ofBytes_eq_ok_iff.mpr ⟨rest, (@Archive.faithful_snapshot 0).read_write s h rest⟩

theorem ofBytes_toBytes (h : s.Storable) : ofBytes s.toBytes = .ok s := by
  have hread := ofBytes_toBytes_append h []
  rwa [List.append_nil] at hread

theorem storable_of_ofBytes {bytes : List UInt8} (h : ofBytes bytes = .ok s) : s.Storable := by
  obtain ⟨rest, hread⟩ := ofBytes_eq_ok_iff.mp h
  exact (@Archive.faithful_snapshot 0).holds_of_read bytes s rest hread

/-- What can be stored is exactly what is found again. -/
theorem storable_iff : s.Storable ↔ ofBytes s.toBytes = .ok s :=
  ⟨ofBytes_toBytes, storable_of_ofBytes⟩

instance decidableStorable (s : Snapshot) : Decidable s.Storable :=
  @decidable_of_iff _ _ storable_iff.symm (Outcome.decidableEqExcept (ofBytes s.toBytes) (.ok s))

/-- Storing loses nothing. A snapshot that can be stored is found again in its bytes, whatever comes
after them, with the tallies that its territories had; so two such snapshots never have the same
bytes. And whatever is read from any bytes can be stored: written and read again it is the same
snapshot, with the same fingerprint. -/
theorem toBytes_restores :
    (∀ s : Snapshot, s.Storable → ∀ rest, ofBytes (s.toBytes ++ rest) = .ok s) ∧
      (∀ s s' : Snapshot, s.Storable → s'.Storable → s.toBytes = s'.toBytes → s = s') ∧
      ∀ bytes (s : Snapshot), ofBytes bytes = .ok s → s.Storable ∧
        ∃ s', ofBytes s.toBytes = .ok s' ∧ s' = s ∧ s'.fingerprint = s.fingerprint := by
  refine ⟨fun s => ofBytes_toBytes_append, ?_, ?_⟩
  · intro s s' hs hs' hsame
    have hread : ofBytes s.toBytes = .ok s' := by
      rw [hsame]
      exact ofBytes_toBytes hs'
    rw [ofBytes_toBytes hs] at hread
    exact Except.ok.inj hread
  · intro bytes s hread
    have hs := storable_of_ofBytes hread
    exact ⟨hs, s, ofBytes_toBytes hs, rfl, rfl⟩

/-- One piece stands twice in a province with a negative output, and bytes follow the snapshot. -/
theorem toBytes_restores_repeated :
    let infantry := Samples.piece 1 Samples.infantry Samples.red
    let s := { Samples.separateSeas with
      territories := .ofList [(Samples.redCapital, .ofRecord
        { id := Samples.redProvince, name := "Red Province", isWater := false
          site := some { production := -2 }, stack := ⟨[infantry, infantry]⟩ })]
      alliances := [.ofList [Samples.red, Samples.blue]] }
    s.Storable ∧ ofBytes (s.toBytes ++ [1, 2, 3]) = .ok s ∧
      (s.territory Samples.redCapital).toOption.map
        (·.countOwned Samples.red Samples.infantry) = some 2 := by
  intro infantry s
  have hs : s.Storable := by decide +kernel
  obtain ⟨hrestored, -, -⟩ := toBytes_restores
  refine ⟨hs, hrestored s hs [1, 2, 3], ?_⟩
  decide +kernel

end Snapshot

end Quartermaster
