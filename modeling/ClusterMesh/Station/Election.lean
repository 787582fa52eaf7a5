import ClusterMesh.Station.Basic

/-! How stations elect heads. Of two candidates the one with more direct neighbors stays, of equals
the one with the lower name; everyone else follows the nearest. -/
namespace ClusterMesh.Station

/-! ## Choosing a head -/

def prefers (s : Station) (head : NodeId) (hops : UInt8) (direct : UInt32) : Bool :=
  !s.node.hasHead || hops < s.choice.hops ||
    (hops = s.choice.hops && s.choice.direct < direct) ||
    (hops = s.choice.hops && direct = s.choice.direct && head < s.node.head)

def consider (s : Station) (head : NodeId) (hops : UInt8) (direct : UInt32)
    (clusterClass : UInt16) : Station :=
  if s.node.role = .candidate ∨ s.node.role = .head then s
  else if s.node.head = head then
    { s with choice := ⟨min s.choice.hops hops, max s.choice.direct direct⟩ }
  else if s.prefers head hops direct then
    let s := { s with node := s.node.follow head clusterClass, choice := ⟨hops, direct⟩ }
    (s.trace (.followed head hops direct)).note (.followed s.id head hops)
  else s

def heedRenouncement (s : Station) (head : NodeId) : Station :=
  if s.node.head ≠ head then s
  else
    let s := { s with node := s.node.leave, choice := {} }
    let s := s.note (.headRenounced head)
    if s.node.role = .candidate then s
    else
      let wasMember : Bool := s.node.role = .member
      let (allowed, s) := s.become .discovering
      if !allowed && wasMember then (s.become .edge).2 else s

/-! ## Candidates -/

def isBeatenBy (s : Station) (rival : NodeId) (direct : UInt32) : Bool :=
  s.campaign.direct < direct || (direct = s.campaign.direct && rival < s.id)

def meetRival (s : Station) (rival : NodeId) (hops : UInt8) (ballot : Ballot) : Station :=
  if !s.isBeatenBy rival ballot.direct then s
  else
    match s.become .edge with
    | (false, s) => s
    | (true, s) =>
      let own := s.campaign.direct
      let s := { s with
        campaign := { s.campaign with rounds := 0, renouncements := electionRounds }
        node := s.node.follow rival ballot.clusterClass
        choice := ⟨hops, ballot.direct⟩ }
      (s.trace (.lost rival own ballot.direct)).note (.lost s.id rival own ballot.direct)

def stand (s : Station) : Station :=
  match s.become .candidate with
  | (false, s) => s
  | (true, s) =>
    { s with
      campaign := { s.campaign with
        rounds := electionRounds
        renouncements := 0
        direct := UInt32.ofNat s.node.countDirect }
      node := { s.node with score := s.node.scoreAt s.node.noise } }

/-- A candidate becomes head in the second cycle after its last announcement, so that late
announcements of others are still heard. -/
def takeOffice (s : Station) : Station :=
  if s.campaign.rounds = 0 ∧ s.campaign.lastRound.succSat < s.node.cycle then
    match s.become .head with
    | (false, s) => s
    | (true, s) => { s with node := s.node.follow s.id s.node.clusterClass }
  else s

def decideRole (s : Station) : Station :=
  match s.node.role with
  | .starting => (s.become .discovering).2
  | .candidate => s.takeOffice
  | .head => s
  | role =>
    if !s.node.hasHead && s.node.mayStand then s.stand
    else if role = .discovering ∧ s.node.isEdge = true then (s.become .edge).2
    else if role = .edge ∧ s.node.hasHead = true then (s.become .member).2
    else s

/-! ## Reception -/

def heed (s : Station) (p : Packet) : Station :=
  if p.sender = s.id then s
  else
    match p.content with
    | .beacon =>
      if p.fromHead then
        { s with node := s.node.markHead p.sender 0 }.consider p.sender p.distance 0 0
      else s
    | .renouncement _ => s.heedRenouncement p.sender
    | .candidacy ballot =>
      let s := { s with node := s.node.noteCandidate }
      match s.node.role with
      | .candidate => s.meetRival p.sender p.distance ballot
      | .head => s
      | _ => s.consider p.sender p.distance ballot.direct ballot.clusterClass

end ClusterMesh.Station
