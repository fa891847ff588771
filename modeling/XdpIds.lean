import XdpIds.Lib.Worklist
import XdpIds.Lib.LevelOrder
import XdpIds.Lib.Transition
import XdpIds.Packet.Features
import XdpIds.Tree.Node
import XdpIds.Tree.Export
import XdpIds.Tree.Loading
import XdpIds.Tree.Proofs.Layout
import XdpIds.Tree.Proofs.Simulation
import XdpIds.Tree.Proofs.Exported
import XdpIds.Tree.Proofs.Predict
import XdpIds.Tree.Proofs.Fits
import XdpIds.Tree.Proofs.Loading
import XdpIds.Packet.Flow
import XdpIds.Packet.Parse
import XdpIds.Packet.Proofs.Slots
import XdpIds.Packet.Proofs.Parse
import XdpIds.Tree.Proofs.Walk
import XdpIds.Tree.Checked
import XdpIds.Tree.Proofs.Checked
import XdpIds.Packet.Proofs.Observe
import XdpIds.Packet.Proofs.Key
import XdpIds.Packet.Proofs.Columns
import XdpIds.Lib.Keyed
import XdpIds.Packet.Ledger
import XdpIds.Packet.Proofs.Ledger
import XdpIds.Packet.Proofs.Means
import XdpIds.Packet.Proofs.Macros
import XdpIds.Lib.Threads
import XdpIds.Packet.Parallel
import XdpIds.Packet.Proofs.Parallel
import XdpIds.Packet.Report
import XdpIds.Packet.Proofs.Exits
import XdpIds.Packet.Proofs.Transport
import XdpIds.Tree.Proofs.Quantise
import XdpIds.Listener.Pack
import XdpIds.Listener.Proofs.Pack
import XdpIds.Listener.Event
import XdpIds.Listener.Proofs.Event
import XdpIds.CountIps.Count
import XdpIds.Packet.Proofs.Stale
import XdpIds.CountIps.Dump
import XdpIds.CountIps.Proofs.Key
import XdpIds.Listener.Proofs.Agree
import XdpIds.CountIps.Proofs.Ledger
import XdpIds.CountIps.Parallel
import XdpIds.CountIps.Proofs.Parallel
import XdpIds.CountIps.Proofs.Dump
import XdpIds.Listener.Proofs.Tracepoint
import XdpIds.Lib.Rank
import XdpIds.Packet.Proofs.Rank
import XdpIds.Lib.Residue
import XdpIds.Packet.Proofs.Cumulative
import XdpIds.Packet.Proofs.Gaps
import XdpIds.Lib.Ring
import XdpIds.Lib.Pipe
import XdpIds.Lib.Text
import XdpIds.CountIps.Proofs.Address
import XdpIds.Listener.Log
import XdpIds.Listener.Proofs.Log
import XdpIds.Listener.Proofs.Run
import XdpIds.Lib.Evicting
import XdpIds.Packet.Proofs.Evicting
import XdpIds.CountIps.Proofs.Evicting
import XdpIds.Tree.Proofs.Verdict
import XdpIds.Packet.Log
import XdpIds.Packet.Proofs.Log
import XdpIds.Packet.Proofs.Shown
import XdpIds.Lib.Tasks
import XdpIds.Packet.Accesses
import XdpIds.Packet.Proofs.Accesses
import XdpIds.Packet.System
import XdpIds.Packet.Proofs.System
import XdpIds.Packet.Proofs.Decisions
import XdpIds.CountIps.Listing
import XdpIds.CountIps.Proofs.Listing
import XdpIds.Packet.Proofs.Alone
import XdpIds.Lib.CText
import XdpIds.Tree.HeaderText
import XdpIds.Tree.Proofs.HeaderText
import XdpIds.Lib.Mask
import XdpIds.Training.Load
import XdpIds.Training.Proofs.Load
import XdpIds.Usr.Main
import XdpIds.Usr.Proofs.Lawful
import XdpIds.Usr.Proofs.Exit
