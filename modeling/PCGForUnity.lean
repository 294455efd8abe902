import PCGForUnity.Lib.Run
import PCGForUnity.Network.MessageBuffer
import PCGForUnity.Network.SocketConfig
import PCGForUnity.Lib.StdSort
import PCGForUnity.Network.WriteBufferQueue
import PCGForUnity.Lib.LinkedList
import PCGForUnity.Lib.PriorityOrder
import PCGForUnity.Utinities.PriorityList
import PCGForUnity.ECS.SystemContainer
import PCGForUnity.Network.ReadBuffers
import PCGForUnity.Network.Ikcp
import PCGForUnity.Network.KcpSession
import PCGForUnity.Network.ServerFraming
import PCGForUnity.Network.MalformedPackets
import PCGForUnity.Network.KcpClient
import PCGForUnity.Network.ClientFraming
import PCGForUnity.Network.KcpTime
import PCGForUnity.ECS.StableArray
import PCGForUnity.ECS.IComponent
import PCGForUnity.ECS.System
import PCGForUnity.Lib.Loop
import PCGForUnity.Lib.VisitLog
import PCGForUnity.Lib.Lattice
import PCGForUnity.Generator.Generator
import PCGForUnity.Generator.DiamondSquare
import PCGForUnity.Generator.DiamondSquareRun
import PCGForUnity.Generator.DiamondSquareFill
import PCGForUnity.Generator.MapGenerator
import PCGForUnity.Generator.CopyTile
import PCGForUnity.Generator.HeightTiles
import PCGForUnity.Generator.SplatTiles
import PCGForUnity.Generator.TileHandOff
import PCGForUnity.Lib.StdMap
import PCGForUnity.Server.World
import PCGForUnity.Server.LoginQueue
import PCGForUnity.Server.Admission
import PCGForUnity.Network.SocketServer
import PCGForUnity.Network.SessionStore
import PCGForUnity.Network.FreshConversations
import PCGForUnity.Network.AcceptDecisions
import PCGForUnity.Network.ConnectRetry
import PCGForUnity.Network.MessageQueue
import PCGForUnity.Network.Handshake
import PCGForUnity.Network.SendWorker
import PCGForUnity.Network.TrySend
import PCGForUnity.Server.Shutdown
import PCGForUnity.Network.AcceptBlanking
import PCGForUnity.ECS.SlotReuse
import PCGForUnity.ECS.StableArrayCopies
import PCGForUnity.ECS.Registration
import PCGForUnity.Network.ClientLiveness
import PCGForUnity.Network.ConnectTimeout
import PCGForUnity.Server.Disconnects
import PCGForUnity.Server.QueueFlags
import PCGForUnity.Generator.SplatPainter
import PCGForUnity.Generator.SplatBrush
import PCGForUnity.Generator.SplatWeights
import PCGForUnity.Generator.BrushFootprint
import PCGForUnity.Generator.TerrainNeighbors
import PCGForUnity.Generator.Mountain
import PCGForUnity.Generator.PointOrder
import PCGForUnity.Generator.MountainWord
import PCGForUnity.Generator.MountainGrammar
import PCGForUnity.Lib.ExpSums
import PCGForUnity.Generator.MountainTurtle
import PCGForUnity.Server.SessionTimers
import PCGForUnity.Server.TimerDrift
import PCGForUnity.Lib.Exploration
import PCGForUnity.Unity.TerrainPiece
import PCGForUnity.Generator.HeightEnvelope
import PCGForUnity.Lib.Circumcircle
import PCGForUnity.Lib.BowyerWatson
import PCGForUnity.Lib.DelaunayStar
import PCGForUnity.Generator.Delaunay
import PCGForUnity.Generator.MeshIndices
import PCGForUnity.Network.MakeRoom
import PCGForUnity.Generator.NeighborIds
import PCGForUnity.Lib.SerialNumber
import PCGForUnity.Lib.Fragments
import PCGForUnity.Lib.SelectiveRepeat
import PCGForUnity.Network.Kcp.Segment
import PCGForUnity.Network.Kcp.Control
import PCGForUnity.Network.Kcp.Parts
import PCGForUnity.Network.Kcp.Output
import PCGForUnity.Network.Kcp.Sender
import PCGForUnity.Network.Kcp.Receiver
import PCGForUnity.Network.Kcp.Input
import PCGForUnity.Network.Kcp.Connection
import PCGForUnity.Network.Kcp.Delivery
import PCGForUnity.Network.Kcp.Calls
import PCGForUnity.Network.Kcp.Flush
import PCGForUnity.Network.Kcp.Datagrams
import PCGForUnity.Network.Kcp.Ready
import PCGForUnity.Network.Kcp.Served
import PCGForUnity.Network.Kcp.Recovery
import PCGForUnity.Network.Kcp.Progress
import PCGForUnity.Network.Kcp.Schedule
import PCGForUnity.Threading.ThreadPool
import PCGForUnity.Generator.AutomaticPainter
