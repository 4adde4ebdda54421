import VoxelStream.CommandLine.Outcome
import VoxelStream.Main
import VoxelStream.Proofs.Octree.Cell
import VoxelStream.Proofs.Octree.Descent
import VoxelStream.Proofs.Octree.Search
import VoxelStream.Proofs.Octree.Answer
import VoxelStream.Proofs.Octree.Cut
import VoxelStream.Proofs.Octree.Pruning
import VoxelStream.Proofs.Octree.Subdivision
import VoxelStream.Proofs.Octree.Confinement
import VoxelStream.Proofs.Octree.Difference
import VoxelStream.Proofs.Octree.Enclosure
import VoxelStream.Proofs.Number.Rounding
import VoxelStream.Proofs.Number.Single
import VoxelStream.Proofs.Decimal.Layout
import VoxelStream.Proofs.Json.Scan
import VoxelStream.Proofs.Json.Codec
import VoxelStream.Proofs.Json.Forms
import VoxelStream.Proofs.Json.Spelling
import VoxelStream.Proofs.Json.Value
import VoxelStream.Proofs.Json.Overlay
import VoxelStream.Proofs.Geometry.Mesh
import VoxelStream.Proofs.Render.Retained
import VoxelStream.Proofs.Render.Flat
import VoxelStream.Proofs.Render.Replay
import VoxelStream.Proofs.Render.Range
import VoxelStream.Proofs.Render.Frame
import VoxelStream.Proofs.Render.Recorder
import VoxelStream.Proofs.Store.Cache
import VoxelStream.Proofs.Store.Record
import VoxelStream.Proofs.Store.Count
import VoxelStream.Proofs.Store.Dialogue
import VoxelStream.Proofs.Store.History
import VoxelStream.Proofs.Store.Flat
import VoxelStream.Proofs.Stream.Plan
import VoxelStream.Proofs.Stream.Course
import VoxelStream.Proofs.Stream.Mirror
import VoxelStream.Proofs.Stream.Session
import VoxelStream.Proofs.Stream.Schedule
import VoxelStream.Proofs.Stream.Handover
import VoxelStream.Proofs.Stream.Recording
import VoxelStream.Proofs.Stream.Retention
import VoxelStream.Proofs.Stream.Making
import VoxelStream.Proofs.Stream.Attention
import VoxelStream.Proofs.Stream.Lifecycle
import VoxelStream.Proofs.Stream.Figures
import VoxelStream.Proofs.Stream.Convergence
import VoxelStream.Proofs.Stream.Isolation
import VoxelStream.Proofs.Stream.ConfigFile
import VoxelStream.Proofs.Voxel.Faces
import VoxelStream.Proofs.Voxel.Border
import VoxelStream.Proofs.Voxel.Volume
import VoxelStream.Proofs.Voxel.Column
import VoxelStream.Proofs.Voxel.Writes
import VoxelStream.Proofs.CommandLine.Usable
