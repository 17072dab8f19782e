import Obelisk.Vmm.Clone
import Obelisk.Cred.Run
import Obelisk.Net.Eof
import Obelisk.Sock.Owner
import Obelisk.Sock.Conn
import Obelisk.Net.Refine
import Obelisk.Policy.Run
import Obelisk.Policy.Enforce
import Obelisk.Proc.Family
import Obelisk.Sock.Inherit
import Obelisk.Pmm.Metadata
import Obelisk.Initd.Services
import Obelisk.Paging.Range
import Obelisk.Slab.Conserve
import Obelisk.Slab.Exclusive
import Obelisk.Vmm.Heap
import Obelisk.Vmm.Protect
import Obelisk.Axiomfs.Readdir
import Obelisk.Proc.Wait
import Obelisk.Sched.Sleep
import Obelisk.Syscall.UserPath
import Obelisk.Vmm.UserString
import Obelisk.Exec.Relr
import Obelisk.Net.Ack
import Obelisk.Opkg.Version
import Obelisk.Proc.Undo
import Obelisk.Passwd.Group
import Obelisk.Passwd.Format
import Obelisk.Devfs.Mouse
import Obelisk.Opkg.Manifest
import Obelisk.Opkg.Package
import Obelisk.Rockbox.Glob
import Obelisk.Libc.Strncpy
import Obelisk.Sock.Fifo
import Obelisk.Net.Checksum
import Obelisk.Curl.Dns
import Obelisk.Proc.Lowest
