import Imx.Membuff.Fifo
import Imx.Env.Sf
import Imx.Env.FwEnv
import Imx.Env.FwWrite
import Imx.EnvFlags.Follow
import Imx.Lmb.Alloc
import Imx.Sparse.Store
import Imx.Defrag.Reassembly
import Imx.Tftp.Get
import Imx.Tftp.Put
import Imx.Nfs.Stale
import Imx.Rsa.PowMod
import Imx.Readline.Editor
import Imx.Gpt.Crash
import Imx.Gpt.RoundTrip
import Imx.Fit.Required
import Imx.Fit.Signed
import Imx.Dfu.Recover
import Imx.Kermit.Download
import Imx.Mtdparts.Current
import Imx.Mtdparts.RoundTrip
import Imx.Imximage.Faithful
import Imx.XyzModem.Delivery
import Imx.HashTable.Bounds
import Imx.HashTable.Lossy
import Imx.HashTable.Overflow
import Imx.HashTable.Listed
import Imx.HashTable.Crlf
import Imx.HashTable.Match
import Imx.HashTable.Refused
import Imx.Env.Early
import Imx.Env.FwSet
import Imx.EnvFlags.Attr
import Imx.Bootp.Ids
import Imx.Base.Packet
import Imx.Dns.Reply
import Imx.Bootp.Options
import Imx.Net.Receive
import Imx.Lmb.Ordered
import Imx.Lmb.Release
import Imx.Lmb.Highest
import Imx.Nfs.Bounds
import Imx.Defrag.Hostile
import Imx.Base.Ring
import Imx.Fec.Defs
import Imx.Fec.Receive
import Imx.Gpt.Fill
import Imx.Base.Access
import Imx.Gpt.Hostile
import Imx.Base.Fuel
import Imx.Dos.Defs
import Imx.Dos.Walk
import Imx.Cli.Defs
import Imx.Cli.Expand
import Imx.Ext4.Dev
import Imx.Ext4.ReadFile
import Imx.Ext4.Indirect
import Imx.Ext4.FindFile
import Imx.Ext4.Allocated
import Imx.Base.Extent
import Imx.Fat.Defs
import Imx.Fat.Entry
import Imx.Fat.Contents
import Imx.Fat.Slots
import Imx.Fat.VfatName
import Imx.Fat.Writer
import Imx.Fat.Table
import Imx.Fat.Directory
import Imx.Fat.LongName
import Imx.Esdhc.Sysctl
import Imx.Input.Matrix
import Imx.Input.Translate
import Imx.Lcdif.Clock
import Imx.Hwconfig.Lookup
import Imx.Srec.Transfer
import Imx.Rsa.Verify
import Imx.XyzModem.Safety
import Imx.I2c.Transfer
import Imx.Mtdparts.Room
import Imx.Sparse.Flash
import Imx.Sparse.Bounds
import Imx.Mmc.Erase
import Imx.Lz4.RoundTrip
import Imx.MxsNand.Mark
import Imx.Imximage.Place
import Imx.Fastboot.EnvFile
import Imx.Fastboot.EnvRun
import Imx.Fastboot.EnvLines
import Imx.Fastboot.EnvApplied
import Imx.Fastboot.Session
import Imx.Fastboot.Obeys
import Imx.XyzModem.Crc
import Imx.Circbuf.Queue
import Imx.Readline.History
import Imx.Rtc.Date
import Imx.Spi.Clock
import Imx.Spi.Xfer
import Imx.Time.Ticks
import Imx.Malloc.Simple
import Imx.Gpt.UuidText
import Imx.Tpm.LoadKey
import Imx.Bsp.Rtc
import Imx.Bsp.Delay
import Imx.Bsp.KeyFilter
import Imx.Bsp.Uart
import Imx.Bsp.I2c
import Imx.Bsp.Lcd
import Imx.Bsp.Line
import Imx.Bsp.Number
import Imx.Bsp.Text
