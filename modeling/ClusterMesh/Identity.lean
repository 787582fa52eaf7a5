/-! Names of nodes, and the hash of a name. -/
namespace ClusterMesh

abbrev NodeId := UInt32

def nobody : NodeId := 0

def slotHash (id : NodeId) : UInt32 :=
  let byte (shift : UInt32) : UInt32 := (id >>> shift) &&& 0xff
  [byte 0, byte 8, byte 16, byte 24].foldl (fun h b => (h ^^^ b) * 16777619) 2166136261

end ClusterMesh
