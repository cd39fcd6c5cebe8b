import SpiritFox.Txn.Slots
import SpiritFox.Txn.Legacy
import SpiritFox.Persist.Floor
import SpiritFox.Persist.Revocation
import SpiritFox.Kernel.Handles
import SpiritFox.Kernel.Authority
import SpiritFox.Kernel.Copies
import SpiritFox.Kernel.Arena
import SpiritFox.Kernel.Vtd
import SpiritFox.Manager
import SpiritFox.Manager.Cycle
import SpiritFox.Supervisor
import SpiritFox.Package.Lookup
import SpiritFox.Package.Relocate
import SpiritFox.Ns.Confine
import SpiritFox.Ns.Client
import SpiritFox.Ns.Notes
import SpiritFox.Ns.RamFile
import SpiritFox.Ns.Pipe
import SpiritFox.Ns.Poll
import SpiritFox.Ns.Reject
import SpiritFox.Ns.Listing
import SpiritFox.ReadFs.Create
import SpiritFox.Virtio
import SpiritFox.Kernel.Console
import SpiritFox.Kernel.Counters
import SpiritFox.Net.Ipv4
